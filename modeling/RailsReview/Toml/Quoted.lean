/-!
# Quoted texts

Basic texts stand in double quotes and know escapes; literal texts stand in single quotes and know
none. Both have a form in three quotes that may span lines. Each reader begins after the opening
quotes and returns what follows the closing ones.
-/
namespace RailsReview.Toml

def isSpace (c : Char) : Bool := c == ' ' || c == '\t'

/-- Characters that may stand in a text or a comment: no control characters but the tab. -/
def isPrintable (c : Char) : Bool := c == '\t' || (' ' ≤ c && c != '\x7f')

def hexValue? (c : Char) : Option Nat :=
  if '0' ≤ c && c ≤ '9' then some (c.toNat - '0'.toNat)
  else if 'a' ≤ c && c ≤ 'f' then some (c.toNat - 'a'.toNat + 10)
  else if 'A' ≤ c && c ≤ 'F' then some (c.toNat - 'A'.toNat + 10)
  else none

/-- The character whose code `count` hexadecimal digits write. -/
def scalar? (count : Nat) (cs : List Char) : Option Char :=
  if cs.length < count then none
  else
    ((cs.take count).mapM hexValue?).bind fun ds =>
      let n := ds.foldl (fun n d => n * 16 + d) 0
      if h : n.isValidChar then some (Char.ofNatAux n h) else none

/-- The character an escape stands for, and how many characters it has after the backslash. -/
def escape? : List Char → Option (Char × Nat)
  | 'b' :: _ => some ('\x08', 1)
  | 't' :: _ => some ('\t', 1)
  | 'n' :: _ => some ('\n', 1)
  | 'f' :: _ => some ('\x0c', 1)
  | 'r' :: _ => some ('\r', 1)
  | '"' :: _ => some ('"', 1)
  | '\\' :: _ => some ('\\', 1)
  | 'u' :: cs => (scalar? 4 cs).map (·, 5)
  | 'U' :: cs => (scalar? 8 cs).map (·, 9)
  | _ => none

/-- Puts a character in front of what a reader found. -/
def consText (c : Char) (found : Option (List Char × List Char)) :
    Option (List Char × List Char) :=
  found.map fun (text, rest) => (c :: text, rest)

/-- Reads a basic text, after skipping the rest of an escape. -/
def basic : Nat → List Char → Option (List Char × List Char)
  | _, [] => none
  | skip + 1, _ :: cs => basic skip cs
  | 0, c :: cs =>
    if c = '"' then some ([], cs)
    else if c = '\\' then (escape? cs).bind fun (x, n) => consText x (basic n cs)
    else if isPrintable c then consText c (basic 0 cs)
    else none

/-- Whether nothing but blanks is left on the line. -/
def endsLine (cs : List Char) : Bool :=
  match cs.dropWhile isSpace with
  | '\n' :: _ => true
  | '\r' :: '\n' :: _ => true
  | _ => false

/-- Reads a basic text that may span lines. A backslash at the end of a line skips all blanks and
line ends after it; `blank` tells that this is going on. -/
def multilineBasic : Nat → Bool → List Char → Option (List Char × List Char)
  | _, _, [] => none
  | skip + 1, blank, _ :: cs => multilineBasic skip blank cs
  | 0, _, '"' :: '"' :: '"' :: '"' :: '"' :: cs => some (['"', '"'], cs)
  | 0, _, '"' :: '"' :: '"' :: '"' :: cs => some (['"'], cs)
  | 0, _, '"' :: '"' :: '"' :: cs => some ([], cs)
  | 0, blank, '\r' :: '\n' :: cs =>
    if blank then multilineBasic 0 true cs else consText '\n' (multilineBasic 0 false cs)
  | 0, blank, c :: cs =>
    if blank && (isSpace c || c == '\n') then multilineBasic 0 true cs
    else if c = '\\' then
      if endsLine cs then multilineBasic 0 true cs
      else (escape? cs).bind fun (x, n) => consText x (multilineBasic n false cs)
    else if isPrintable c || c = '\n' then consText c (multilineBasic 0 false cs)
    else none

def literal : List Char → Option (List Char × List Char)
  | [] => none
  | c :: cs =>
    if c = '\'' then some ([], cs)
    else if isPrintable c then consText c (literal cs)
    else none

def multilineLiteral : List Char → Option (List Char × List Char)
  | [] => none
  | '\'' :: '\'' :: '\'' :: '\'' :: '\'' :: cs => some (['\'', '\''], cs)
  | '\'' :: '\'' :: '\'' :: '\'' :: cs => some (['\''], cs)
  | '\'' :: '\'' :: '\'' :: cs => some ([], cs)
  | '\r' :: '\n' :: cs => consText '\n' (multilineLiteral cs)
  | c :: cs =>
    if isPrintable c || c = '\n' then consText c (multilineLiteral cs) else none

/-- Drops a line end directly after the opening quotes. -/
def dropLineEnd : List Char → List Char
  | '\n' :: cs => cs
  | '\r' :: '\n' :: cs => cs
  | cs => cs

end RailsReview.Toml
