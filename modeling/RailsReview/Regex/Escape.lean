import RailsReview.Regex.Basic
import RailsReview.Text.Basic

/-!
# Escapes in regular expressions

A backslash makes punctuation literal and gives letters a meaning; a letter without one is refused.
-/
namespace RailsReview.Regex

/-- The switches that can be set inside a pattern. -/
structure Flags where
  ignoreCase : Bool := false
  multiLine : Bool := false
  dotAll : Bool := false
  /-- Exchanges greedy and lazy repetition, which does not change whether a text matches. -/
  swapGreed : Bool := false
  unicode : Bool := true
  anyLineEnd : Bool := false
  verbose : Bool := false
  deriving DecidableEq, Repr

/-- What an escape or a plain character in a pattern stands for. -/
inductive Primitive where
  | literal (c : Char)
  /-- A character written as two hexadecimal digits, which means a byte where Unicode is off. -/
  | byte (c : Char)
  | set (s : CharSet)
  | anchor (a : Anchor)

def isMeta (c : Char) : Bool := "\\.+*?()|[]\x7b\x7d^$#&-~".toList.contains c

/-- ASCII punctuation may be escaped; angle brackets are anchors. -/
def mayEscape (c : Char) : Bool :=
  isMeta c || (Text.isAscii c && !c.isAlphanum && c != '<' && c != '>')

def hexValue? (c : Char) : Option Nat :=
  if c.isDigit then some (c.toNat - '0'.toNat)
  else if 'a' ≤ c && c ≤ 'f' then some (c.toNat - 'a'.toNat + 10)
  else if 'A' ≤ c && c ≤ 'F' then some (c.toNat - 'A'.toNat + 10)
  else none

def hexNumber? (ds : List Char) : Option Nat :=
  if ds.isEmpty then none
  else ds.foldlM (fun n c => (hexValue? c).map (n * 16 + ·)) 0

/-- The character with a code point, surrogates and numbers out of range excluded. -/
def charOf? (n : Nat) : Option Char := if n.isValidChar then some (Char.ofNat n) else none

/-- A hexadecimal escape after its letter: digits in braces, or `digits` of them. -/
def hexEscape? (digits : Nat) : List Char → Option (Char × Bool × List Char)
  | '\x7b' :: rest =>
    let ds := rest.takeWhile (· != '\x7d')
    match rest.dropWhile (· != '\x7d') with
    | [] => none
    | _ :: rest => ((hexNumber? ds).bind charOf?).map (·, false, rest)
  | cs =>
    if cs.length < digits then none
    else ((hexNumber? (cs.take digits)).bind charOf?).map (·, digits == 2, cs.drop digits)

def digitSet (f : Flags) : CharSet := if f.unicode then .digit else .asciiDigit

def spaceSet (f : Flags) : CharSet := if f.unicode then .space else .asciiSpace

def wordSet (f : Flags) : CharSet := if f.unicode then .word else .asciiWord

/-- The named halves of a word boundary, in braces after the letter. -/
def boundaryName? (cs : List Char) : Option (Anchor × List Char) :=
  [("\x7bstart\x7d", Anchor.wordStart), ("\x7bend\x7d", Anchor.wordEnd),
   ("\x7bstart-half\x7d", Anchor.wordStartHalf), ("\x7bend-half\x7d", Anchor.wordEndHalf)].findSome?
    fun (name, a) => (Text.afterStart? name.toList cs).map (a, ·)

/-- A brace after the boundary letter that opens no known name still counts as a repetition when it
does not begin like a name. -/
def opensBoundaryName (cs : List Char) : Bool :=
  match cs with
  | '\x7b' :: c :: _ => c.isAlpha || c == '-'
  | _ => false

/-- Properties of characters that have a name here, by the form in which names are compared. -/
def propertySet? (name : String) : Option CharSet :=
  match name with
  | "any" => some .any
  | "ascii" => some (.range '\x00' '\x7f')
  | "nd" | "decimalnumber" | "digit" => some .digit
  | "whitespace" | "space" => some .space
  | _ => none

def comparableName (cs : List Char) : String :=
  String.ofList ((cs.filter fun c => c != ' ' && c != '_' && c != '-').map Char.toLower)

/-- A property after its letter, either one letter or a name in braces. -/
def property? (f : Flags) (negated : Bool) (cs : List Char) : Option (CharSet × List Char) :=
  if !f.unicode then none
  else
    let finish (negated : Bool) (name rest : List Char) : Option (CharSet × List Char) :=
      (propertySet? (comparableName name)).map fun s => (if negated then .compl s else s, rest)
    match cs with
    | '\x7b' :: rest =>
      let name := rest.takeWhile (· != '\x7d')
      match rest.dropWhile (· != '\x7d') with
      | [] => none
      | _ :: rest =>
        match name with
        | '^' :: name => finish (!negated) name rest
        | name => finish negated name rest
    | c :: rest => finish negated [c] rest
    | [] => none

def letterEscape? : Char → Option Char
  | 'a' => some '\x07'
  | 'f' => some '\x0c'
  | 't' => some '\t'
  | 'n' => some '\n'
  | 'r' => some '\r'
  | 'v' => some '\x0b'
  | _ => none

/-- Reads an escape after its backslash. -/
def escape? (f : Flags) : List Char → Option (Primitive × List Char)
  | [] => none
  | 'x' :: rest =>
    (hexEscape? 2 rest).map fun (c, isByte, rest) =>
      (if isByte then .byte c else .literal c, rest)
  | 'u' :: rest => (hexEscape? 4 rest).map fun (c, _, rest) => (.literal c, rest)
  | 'U' :: rest => (hexEscape? 8 rest).map fun (c, _, rest) => (.literal c, rest)
  | 'p' :: rest => (property? f false rest).map fun (s, rest) => (.set s, rest)
  | 'P' :: rest => (property? f true rest).map fun (s, rest) => (.set s, rest)
  | 'd' :: rest => some (.set (digitSet f), rest)
  | 'D' :: rest => some (.set (.compl (digitSet f)), rest)
  | 's' :: rest => some (.set (spaceSet f), rest)
  | 'S' :: rest => some (.set (.compl (spaceSet f)), rest)
  | 'w' :: rest => some (.set (wordSet f), rest)
  | 'W' :: rest => some (.set (.compl (wordSet f)), rest)
  | 'A' :: rest => some (.anchor .startText, rest)
  | 'z' :: rest => some (.anchor .endText, rest)
  | 'B' :: rest => some (.anchor .notWordBoundary, rest)
  | 'b' :: rest =>
    match boundaryName? rest with
    | some (a, rest) => some (.anchor a, rest)
    | none => if opensBoundaryName rest then none else some (.anchor .wordBoundary, rest)
  | '<' :: rest => some (.anchor .wordStart, rest)
  | '>' :: rest => some (.anchor .wordEnd, rest)
  | c :: rest =>
    if mayEscape c then some (.literal c, rest)
    else (letterEscape? c).map fun c => (.literal c, rest)

/-- Whether a set that was written without Unicode holds characters beyond ASCII. -/
def reachesBeyondAscii (s : CharSet) : Bool :=
  (List.range 0x80).any fun n => s.contains (Char.ofNat (n + 0x80))

/-- The characters a set stands for; without Unicode it must stay within ASCII. -/
def closeSet? (f : Flags) (s : CharSet) : Option CharSet :=
  if f.unicode then some s
  else if reachesBeyondAscii s then none
  else some (.inter s (.range '\x00' '\x7f'))

def withCase (f : Flags) (s : CharSet) : CharSet :=
  if f.ignoreCase then (if f.unicode then .anyCase s else .anyAsciiCase s) else s

end RailsReview.Regex
