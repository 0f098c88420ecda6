import RailsReview.Toml.Scalar
import RailsReview.Toml.Value

/-!
# Reading documents

A document is a sequence of lines that assign a value to a key or begin a table. A reader returns
what it read and the characters after it.
-/
namespace RailsReview.Toml

abbrev Reader (α : Type) := List Char → Option (α × List Char)

/-- How deep brackets and keys may be nested. -/
def nestingLimit : Nat := 79

def dropSpaces (cs : List Char) : List Char := cs.dropWhile isSpace

/-- Skips blanks, line ends and comments. -/
def skipLines (inComment : Bool) : List Char → List Char
  | [] => []
  | '\n' :: cs => skipLines false cs
  | '\r' :: '\n' :: cs => skipLines false cs
  | c :: cs =>
    if inComment then if isPrintable c then skipLines true cs else c :: cs
    else if isSpace c then skipLines false cs
    else if c = '#' then skipLines true cs
    else c :: cs

/-- Skips the rest of a line, which may hold blanks and a comment only. -/
def lineEnd? (inComment : Bool) : List Char → Option (List Char)
  | [] => some []
  | '\n' :: cs => some cs
  | '\r' :: '\n' :: cs => some cs
  | c :: cs =>
    if inComment then if isPrintable c then lineEnd? true cs else none
    else if isSpace c then lineEnd? false cs
    else if c = '#' then lineEnd? true cs
    else none

def asText : Option (List Char × List Char) → Option (String × List Char) :=
  Option.map fun (text, rest) => (String.ofList text, rest)

def isBare (c : Char) : Bool :=
  ('a' ≤ c && c ≤ 'z') || ('A' ≤ c && c ≤ 'Z') || c.isDigit || c == '_' || c == '-'

/-- Reads one part of a key. -/
def keyPart : Reader String
  | '"' :: cs => asText (basic 0 cs)
  | '\'' :: cs => asText (literal cs)
  | cs =>
    let name := cs.takeWhile isBare
    if name.isEmpty then none else some (String.ofList name, cs.drop name.length)

/-- Reads the parts of a key; each is a character long at least, if only a quote. -/
def keyParts : Nat → Reader (List String)
  | 0, _ => none
  | n + 1, cs =>
    (keyPart (dropSpaces cs)).bind fun (part, cs) =>
      match dropSpaces cs with
      | '.' :: cs => (keyParts n cs).map fun (parts, cs) => (part :: parts, cs)
      | cs => some ([part], cs)

def key : Reader (List String) := fun cs =>
  (keyParts cs.length cs).filter fun (parts, _) => parts.length ≤ nestingLimit

/-- Reads the items of an array up to its closing bracket; each is a character long at least. -/
def arrayItems (item : Reader Value) : Nat → Reader (List Value)
  | 0, _ => none
  | n + 1, cs =>
    match skipLines false cs with
    | ']' :: cs => some ([], cs)
    | cs =>
      (item cs).bind fun (v, cs) =>
        match skipLines false cs with
        | ',' :: cs => (arrayItems item n cs).map fun (vs, cs) => (v :: vs, cs)
        | ']' :: cs => some ([v], cs)
        | _ => none

/-- Reads a key and its value. -/
def assignment (item : Reader Value) : Reader (List String × Value) := fun cs =>
  (key cs).bind fun (path, cs) =>
    match cs with
    | '=' :: cs => (item (dropSpaces cs)).map fun (v, cs) => ((path, v), cs)
    | _ => none

/-- Reads the assignments in braces up to the closing one. -/
def inlineEntries (item : Reader Value) : Nat → Entries → Reader Entries
  | 0, _, _ => none
  | n + 1, entries, cs =>
    (assignment item cs).bind fun ((path, v), cs) =>
      (assign? path v entries).bind fun entries =>
        match dropSpaces cs with
        | ',' :: cs => inlineEntries item n entries cs
        | '}' :: cs => some (entries, cs)
        | _ => none

def inlineTable (item : Reader Value) : Reader Value := fun cs =>
  match dropSpaces cs with
  | '}' :: cs => some (.table .inline [], cs)
  | cs => (inlineEntries item cs.length [] cs).map fun (entries, cs) => (.table .inline entries, cs)

/-- Characters that end a value without quotes. -/
def endsScalar (c : Char) : Bool :=
  isSpace c || c == '\n' || c == '\r' || c == ',' || c == ']' || c == '}' || c == '#'

def scalar : Reader Value := fun cs =>
  let text := cs.takeWhile (!endsScalar ·)
  (scalarValue? text).map (·, cs.drop text.length)

def textValue (found : Option (List Char × List Char)) : Option (Value × List Char) :=
  (asText found).map fun (s, cs) => (.str s, cs)

/-- Reads a value whose brackets are nested no deeper than `depth`. -/
def value (depth : Nat) : Reader Value := fun cs =>
  match cs with
  | '"' :: '"' :: '"' :: cs => textValue (multilineBasic 0 false (dropLineEnd cs))
  | '"' :: cs => textValue (basic 0 cs)
  | '\'' :: '\'' :: '\'' :: cs => textValue (multilineLiteral (dropLineEnd cs))
  | '\'' :: cs => textValue (literal cs)
  | '[' :: cs =>
    match depth with
    | 0 => none
    | depth + 1 =>
      (arrayItems (value depth) (cs.length + 1) cs).map fun (vs, cs) => (.array false vs, cs)
  | '{' :: cs =>
    match depth with
    | 0 => none
    | depth + 1 => inlineTable (value depth) cs
  | cs => scalar cs

/-- What a line of a document does. -/
inductive Statement where
  | assign (path : List String) (v : Value)
  | openTable (path : List String)
  | openItem (path : List String)

def statement : Reader Statement
  | '[' :: '[' :: cs =>
    (key cs).bind fun (path, cs) =>
      match cs with
      | ']' :: ']' :: cs => some (.openItem path, cs)
      | _ => none
  | '[' :: cs =>
    (key cs).bind fun (path, cs) =>
      match cs with
      | ']' :: cs => some (.openTable path, cs)
      | _ => none
  | cs => (assignment (value nestingLimit) cs).map fun ((path, v), cs) => (.assign path v, cs)

/-- The document up to some line, and the table that assignments go to. -/
structure Draft where
  entries : Entries := []
  current : List String := []

namespace Draft

def extend? (d : Draft) : Statement → Option Draft
  | .assign path v =>
    (descend? false (fun _ => assign? path v) d.current .header d.entries).map fun entries =>
      { d with entries := entries }
  | .openTable path => (Toml.openTable? path d.entries).map (⟨·, path⟩)
  | .openItem path => (Toml.openItem? path d.entries).map (⟨·, path⟩)

end Draft

/-- Reads line by line; each is a character long at least. -/
def readLines? : Nat → Draft → List Char → Option Draft
  | 0, _, _ => none
  | n + 1, d, cs =>
    match skipLines false cs with
    | [] => some d
    | cs =>
      (statement cs).bind fun (s, cs) =>
        (lineEnd? false cs).bind fun cs => (d.extend? s).bind fun d => readLines? n d cs

/-- Reads a document; a byte order mark in front of it does not count. -/
def parse? (text : String) : Option Entries :=
  let cs := match text.toList with
    | '\uFEFF' :: cs => cs
    | cs => cs
  (readLines? (cs.length + 1) {} cs).map (·.entries)

end RailsReview.Toml
