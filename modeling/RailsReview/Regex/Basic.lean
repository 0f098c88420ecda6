import RailsReview.Regex.CharSet

/-!
# Regular expressions

Matching asks only whether some part of a text matches. `ends` gives the places where a match that
begins at a given place can end; a repetition is followed until it reaches no new place.
-/
namespace RailsReview

/-- Conditions on a place in the text. -/
inductive Anchor where
  | startText
  | endText
  | startLine
  | endLine
  /-- Lines that end in a carriage return, a newline, or both. -/
  | startAnyLine
  | endAnyLine
  | wordBoundary
  | notWordBoundary
  | wordStart
  | wordEnd
  | wordStartHalf
  | wordEndHalf
  deriving DecidableEq, Repr

inductive Regex where
  | empty
  | char (set : CharSet)
  /-- The anchor, and the characters that count as part of a word. -/
  | anchor (a : Anchor) (letters : CharSet)
  | seq (r s : Regex)
  | alt (r s : Regex)
  /-- At least `min` times, and at most `max` times if there is such a bound. -/
  | rep (r : Regex) (min : Nat) (max : Option Nat)

namespace Regex

/-- A place in a text: the characters before it, last first, and those after it. -/
structure Place where
  before : List Char
  after : List Char

namespace Place

def ofText (text : List Char) : Place := ⟨[], text⟩

/-- This place and all later ones. -/
def onward (before : List Char) : List Char → List Place
  | [] => [⟨before, []⟩]
  | c :: rest => ⟨before, c :: rest⟩ :: onward (c :: before) rest

/-- Two places of one text are the same when as much text lies before them. -/
def same (p q : Place) : Bool := p.before.length == q.before.length

/-- The places of `ps` that are not in `seen`, each once. -/
def fresh (seen : List Place) : List Place → List Place
  | [] => []
  | p :: ps => if seen.any p.same then fresh seen ps else p :: fresh (p :: seen) ps

def step (set : CharSet) (p : Place) : List Place :=
  match p.after with
  | [] => []
  | c :: rest => if set.contains c then [⟨c :: p.before, rest⟩] else []

end Place

def Anchor.holds (letters : CharSet) (p : Place) : Anchor → Bool :=
  let wordBefore := p.before.head?.any letters.contains
  let wordAfter := p.after.head?.any letters.contains
  fun
  | .startText => p.before.isEmpty
  | .endText => p.after.isEmpty
  | .startLine => p.before.head?.all (· == '\n')
  | .endLine => p.after.head?.all (· == '\n')
  | .startAnyLine =>
    match p.before.head?, p.after.head? with
    | none, _ => true
    | some '\n', _ => true
    | some '\r', b => b != some '\n'
    | _, _ => false
  | .endAnyLine =>
    match p.before.head?, p.after.head? with
    | _, none => true
    | _, some '\r' => true
    | b, some '\n' => b != some '\r'
    | _, _ => false
  | .wordBoundary => wordBefore != wordAfter
  | .notWordBoundary => wordBefore == wordAfter
  | .wordStart => !wordBefore && wordAfter
  | .wordEnd => wordBefore && !wordAfter
  | .wordStartHalf => !wordBefore
  | .wordEndHalf => !wordAfter

/-- Applies `f` to a set of places `n` times. -/
def times (f : Place → List Place) : Nat → List Place → List Place
  | 0, ps => ps
  | n + 1, ps => times f n (Place.fresh [] (ps.flatMap f))

/-- The places reached from `ps` in at most `n` rounds of `f`, those in `seen` included. -/
def closure (f : Place → List Place) : Nat → List Place → List Place → List Place
  | 0, seen, _ => seen
  | n + 1, seen, ps =>
    match Place.fresh seen (ps.flatMap f) with
    | [] => seen
    | next => closure f n (seen ++ next) next

/-- The places where a match that begins at a place can end. -/
def ends : Regex → Place → List Place
  | empty => fun p => [p]
  | char set => fun p => p.step set
  | anchor a letters => fun p => if Anchor.holds letters p a then [p] else []
  | seq r s => fun p => Place.fresh [] ((r.ends p).flatMap s.ends)
  | alt r s => fun p => Place.fresh [] (r.ends p ++ s.ends p)
  | rep r min max => fun p =>
    let start := times r.ends min [p]
    let rounds := match max with
      | some m => m - min
      | none => p.after.length + 1
    closure r.ends rounds start start

/-- Whether some part of the text matches. -/
def isMatch (r : Regex) (text : String) : Bool :=
  (Place.onward [] text.toList).any fun p => !(r.ends p).isEmpty

def text (s : String) : Regex := s.toList.foldr (fun c r => seq (char (.single c)) r) empty

def concat (rs : List Regex) : Regex := rs.foldr seq empty

/-- Any one of the texts. -/
def oneOf : List String → Regex
  | [] => char .none
  | [s] => text s
  | s :: rest => alt (text s) (oneOf rest)

def star (r : Regex) : Regex := rep r 0 none

def optional (r : Regex) : Regex := rep r 0 (some 1)

/-- Any text without a newline. -/
def anything : Regex := star (char .notNewline)

def atStart : Regex := anchor .startText .word

def atEnd : Regex := anchor .endText .word

end Regex

end RailsReview
