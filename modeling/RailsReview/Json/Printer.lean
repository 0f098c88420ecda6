import RailsReview.Decimal.Shortest
import RailsReview.Json.Basic

/-!
# Writing JSON text

Objects are written with their keys in order and each key once. The compact form has no spaces; the
indented form puts every item on a line of its own.
-/
namespace RailsReview.Json

def hexDigit (n : Nat) : Char :=
  if n < 10 then Char.ofNat ('0'.toNat + n) else Char.ofNat ('a'.toNat + n - 10)

def escape (c : Char) : List Char :=
  match c with
  | '"' => ['\\', '"']
  | '\\' => ['\\', '\\']
  | '\n' => ['\\', 'n']
  | '\r' => ['\\', 'r']
  | '\t' => ['\\', 't']
  | '\x08' => ['\\', 'b']
  | '\x0c' => ['\\', 'f']
  | c =>
    if c.toNat < 0x20 then ['\\', 'u', '0', '0', hexDigit (c.toNat / 16), hexDigit (c.toNat % 16)]
    else [c]

def quote (s : String) : String :=
  String.ofList ('"' :: s.toList.flatMap escape ++ ['"'])

/-- How doubles are written: positional while the point lies between these places, counted from the
first digit, and with a digit on both sides of the point. -/
structure FloatLayout where
  leastPoint : Int
  greatestPoint : Int

def floatLayout : FloatLayout := ⟨-4, 16⟩

def zeros (n : Nat) : String := String.ofList (List.replicate n '0')

/-- The digits `ds` with the point `point` places after the first one's left edge. -/
def layOut (layout : FloatLayout) (ds : String) (point : Int) : String :=
  let n : Int := ds.length
  if n ≤ point && point ≤ layout.greatestPoint then ds ++ zeros (point - n).toNat ++ ".0"
  else if 0 < point && point ≤ layout.greatestPoint then
    String.ofList (ds.toList.take point.toNat) ++ "." ++ String.ofList (ds.toList.drop point.toNat)
  else if layout.leastPoint ≤ point && point ≤ 0 then "0." ++ zeros (-point).toNat ++ ds
  else
    let fraction := String.ofList (ds.toList.drop 1)
    let head := String.ofList (ds.toList.take 1)
    head ++ (if fraction.isEmpty then "" else "." ++ fraction) ++ "e" ++ toString (point - 1)

def floatText (bits : UInt64) : String :=
  let sign := if Decimal.isNegative bits then "-" else ""
  let x := Decimal.Magnitude.ofBits bits
  if x.m = 0 then sign ++ "0.0"
  else
    let (n, e) := x.shortest
    let ds := toString n
    sign ++ layOut floatLayout ds (e + ds.length)

/-- Adds a field in key order; a field of the same key is replaced. -/
def insertField {α : Type} (key : String) (v : α) : List (String × α) → List (String × α)
  | [] => [(key, v)]
  | (k, w) :: rest =>
    if key < k then (key, v) :: (k, w) :: rest
    else if key = k then (key, v) :: rest
    else (k, w) :: insertField key v rest

def sortFields {α : Type} (fields : List (String × α)) : List (String × α) :=
  fields.foldl (fun acc f => insertField f.1 f.2 acc) []

mutual

def compact : Json → String
  | null => "null"
  | bool b => if b then "true" else "false"
  | int i => toString i
  | float bits => floatText bits
  | str s => quote s
  | arr items => "[" ++ ",".intercalate (compactItems items) ++ "]"
  | obj fields =>
    "\x7b" ++ ",".intercalate
      ((sortFields (compactFields fields)).map fun f => quote f.1 ++ ":" ++ f.2) ++ "\x7d"

def compactItems : List Json → List String
  | [] => []
  | v :: rest => compact v :: compactItems rest

def compactFields : List (String × Json) → List (String × String)
  | [] => []
  | (k, v) :: rest => (k, compact v) :: compactFields rest

end

def indentation (depth : Nat) : String := String.ofList (List.replicate (2 * depth) ' ')

/-- A bracketed list with one item a line, or the bare brackets when there is none. -/
def enclose (opening closing : String) (depth : Nat) (items : List String) : String :=
  if items.isEmpty then opening ++ closing
  else
    opening ++ "\n" ++ ",\n".intercalate (items.map (indentation (depth + 1) ++ ·)) ++ "\n"
      ++ indentation depth ++ closing

mutual

/-- The indented form, with fields in the order given. -/
def indentedAt (depth : Nat) : Json → String
  | arr items => enclose "[" "]" depth (indentedItems (depth + 1) items)
  | obj fields => enclose "\x7b" "\x7d" depth (indentedFields (depth + 1) fields)
  | v => compact v

def indentedItems (depth : Nat) : List Json → List String
  | [] => []
  | v :: rest => indentedAt depth v :: indentedItems depth rest

def indentedFields (depth : Nat) : List (String × Json) → List String
  | [] => []
  | (k, v) :: rest => (quote k ++ ": " ++ indentedAt depth v) :: indentedFields depth rest

end

def indented (v : Json) : String := indentedAt 0 v

end RailsReview.Json
