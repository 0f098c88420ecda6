/-!
# Text

White space, numbers, cutting a text at separators and replacing parts of it. `pieces` keeps empty
pieces, so a text with `n` separators has `n + 1` of them. `lines` follows the habit of text files:
a newline ends a line, and a carriage return before it belongs to the newline.
-/
namespace RailsReview.Text

/-- The characters with the White_Space property. -/
def isBlank (c : Char) : Bool :=
  let n := c.toNat
  (9 ≤ n && n ≤ 13) || n == 0x20 || n == 0x85 || n == 0xA0 || n == 0x1680
    || (0x2000 ≤ n && n ≤ 0x200A) || n == 0x2028 || n == 0x2029 || n == 0x202F || n == 0x205F
    || n == 0x3000

def dropBlank (cs : List Char) : List Char := cs.dropWhile isBlank

/-- Drops the elements at the end that satisfy `p`. -/
def dropEndWhile {α : Type} (p : α → Bool) (as : List α) : List α :=
  (as.reverse.dropWhile p).reverse

def trimChars (cs : List Char) : List Char := dropEndWhile isBlank (dropBlank cs)

def trim (s : String) : String := String.ofList (trimChars s.toList)

/-- The number that digits write, behind one that was read already. -/
def readDigits? (read : Nat) : List Char → Option Nat
  | [] => some read
  | c :: cs => if c.isDigit then readDigits? (read * 10 + (c.toNat - '0'.toNat)) cs else none

/-- Reads a nonempty row of digits. -/
def digits? (cs : List Char) : Option Nat := if cs.isEmpty then none else readDigits? 0 cs

/-- Reads a number below `bound`, perhaps with a plus sign. -/
def natBelow? (bound : Nat) (cs : List Char) : Option Nat :=
  let digits := match cs with
    | '+' :: rest => rest
    | _ => cs
  (digits? digits).filter (· < bound)

/-- The pieces of `cs` between the characters that satisfy `sep`. -/
def pieces (sep : Char → Bool) : List Char → List (List Char)
  | [] => [[]]
  | c :: rest =>
    if sep c then [] :: pieces sep rest
    else
      match pieces sep rest with
      | [] => [[c]]
      | piece :: more => (c :: piece) :: more

def split (sep : Char) (s : String) : List String :=
  (pieces (· == sep) s.toList).map String.ofList

def dropCarriageReturn (line : List Char) : List Char :=
  match line.reverse with
  | '\r' :: rest => rest.reverse
  | _ => line

/-- Turns pieces at newlines into lines: only a piece that a newline ends loses its carriage return,
and an empty last piece is no line. -/
def linesOfPieces : List (List Char) → List (List Char)
  | [] => []
  | [last] => if last.isEmpty then [] else [last]
  | piece :: more => dropCarriageReturn piece :: linesOfPieces more

def lines (s : String) : List (List Char) := linesOfPieces (pieces (· == '\n') s.toList)

/-- Drops `c` as often as it starts the list. -/
def dropLeading (c : Char) (cs : List Char) : List Char := cs.dropWhile (· == c)

/-- What is left of `cs` after `start`. -/
def afterStart? {α : Type} [BEq α] : List α → List α → Option (List α)
  | [], cs => some cs
  | a :: as, c :: cs => if a == c then afterStart? as cs else none
  | _ :: _, [] => none

/-- The parts before and after the first `sep`. -/
def splitFirst? (sep : Char) : List Char → Option (List Char × List Char)
  | [] => none
  | c :: cs =>
    if c = sep then some ([], cs)
    else (splitFirst? sep cs).map fun (before, after) => (c :: before, after)

/-- The parts before and after the last `sep`. -/
def splitLast? (sep : Char) (cs : List Char) : Option (List Char × List Char) :=
  (splitFirst? sep cs.reverse).map fun (back, front) => (front.reverse, back.reverse)

/-- Drops `unit` as often as it starts the list. -/
def dropUnits (unit : List Char) (cs : List Char) : List Char :=
  go cs.length cs
where
  /-- Each round but the last shortens the list, so its length bounds their number. -/
  go : Nat → List Char → List Char
    | 0, cs => cs
    | n + 1, cs =>
      match afterStart? unit cs with
      | some rest => go n rest
      | none => cs

/-- The name of a constant without the double colons that mark it as absolute. -/
def withoutRoot (name : String) : String := String.ofList (dropUnits [':', ':'] name.toList)

/-- Replaces the occurrences of `old` from the left. After one of them, as many characters as it is
longer than one are skipped. -/
def replaceFrom (old new : List Char) : Nat → List Char → List Char
  | _, [] => []
  | skip + 1, _ :: cs => replaceFrom old new skip cs
  | 0, c :: cs =>
    if (afterStart? old (c :: cs)).isSome then new ++ replaceFrom old new (old.length - 1) cs
    else c :: replaceFrom old new 0 cs

/-- Replaces every occurrence of `old`, which must not be empty. -/
def replace (old new : String) (s : String) : String :=
  String.ofList (replaceFrom old.toList new.toList 0 s.toList)

end RailsReview.Text
