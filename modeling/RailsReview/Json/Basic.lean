/-!
# JSON values

A number is an integer when it was written as one and fits 64 bits, with or without sign; any other
number is a double, kept as its IEEE-754 bits so that values can be compared and printed exactly.
Its digits are read into a 64-bit significand. Digits that no longer fit are dropped; a dropped
digit before the point still counts towards the exponent. The significand is then scaled by a power
of ten in one multiplication or division of doubles, each rounded to nearest.
-/
namespace RailsReview

inductive Json where
  | null
  | bool (b : Bool)
  | int (i : Int)
  | float (bits : UInt64)
  | str (s : String)
  | arr (items : List Json)
  | obj (fields : List (String × Json))
  deriving Inhabited

namespace Json

/-- The value of the last field named `key`: a later field overrides an earlier one. -/
def get? (key : String) : Json → Option Json
  | obj fields => (fields.reverse.find? (·.1 == key)).map (·.2)
  | _ => none

def str? : Json → Option String
  | str s => some s
  | _ => none

def bool? : Json → Option Bool
  | bool b => some b
  | _ => none

def int? : Json → Option Int
  | int i => some i
  | _ => none

/-- An integer without a sign, as line numbers and counts are written. -/
def nat? : Json → Option Nat
  | int (.ofNat n) => some n
  | _ => none

def arr? : Json → Option (List Json)
  | arr items => some items
  | _ => none

end Json

end RailsReview

namespace RailsReview.Json

/-- The sign, digits and exponent of a number as it is written. -/
structure Numeral where
  negative : Bool
  whole : List Char
  /-- The digits after the point; `none` without a point. -/
  fraction : Option (List Char)
  /-- The sign (`true` for minus) and digits after the exponent mark. -/
  exponent : Option (Bool × List Char)
  deriving Repr

namespace Numeral

/-- A leading zero stands alone, and every part that is announced has a digit. -/
def wellFormed (n : Numeral) : Bool :=
  (match n.whole with
    | [] => false
    | '0' :: _ :: _ => false
    | _ => true)
  && n.fraction.all (!·.isEmpty)
  && n.exponent.all (!·.2.isEmpty)

def ofChars? (cs : List Char) : Option Numeral :=
  let (negative, cs) := match cs with
    | '-' :: r => (true, r)
    | cs => (false, cs)
  let whole := cs.takeWhile Char.isDigit
  let cs := cs.dropWhile Char.isDigit
  let (fraction, cs) := match cs with
    | '.' :: r => (some (r.takeWhile Char.isDigit), r.dropWhile Char.isDigit)
    | cs => (none, cs)
  let exponent? := match cs with
    | [] => some none
    | c :: r =>
      if c == 'e' || c == 'E' then
        let (minus, r) := match r with
          | '-' :: r => (true, r)
          | '+' :: r => (false, r)
          | r => (false, r)
        if r.all Char.isDigit then some (some (minus, r)) else none
      else none
  match exponent? with
  | none => none
  | some exponent =>
    let n : Numeral := ⟨negative, whole, fraction, exponent⟩
    if n.wellFormed then some n else none

def digit (c : Char) : Nat := c.toNat - '0'.toNat

/-- The greatest 64-bit significand. -/
def maxSignificand : Nat := 0xffffffffffffffff

/-- The longest run of leading digits whose value fits 64 bits when it is appended to `n`, and the
digits left over. -/
def absorb (n : Nat) : List Char → Nat × List Char
  | [] => (n, [])
  | c :: r =>
    let next := n * 10 + digit c
    if next ≤ maxSignificand then absorb next r else (n, c :: r)

/-- The significand and the power of ten that scales it, before the written exponent. -/
def significand (n : Numeral) : Nat × Int :=
  match absorb 0 n.whole with
  | (v, []) =>
    let f := n.fraction.getD []
    let (v, left) := absorb v f
    (v, -((f.length - left.length : Nat) : Int))
  | (v, left) =>
    let f := n.fraction.getD []
    let (v, left') := absorb v f
    (v, (left.length : Int) - ((f.length - left'.length : Nat) : Int))

/-- Exponents are kept within 32 bits. -/
def clampExponent (e : Int) : Int :=
  max (-0x80000000) (min 0x7fffffff e)

def powerOfTen (n : Nat) : Float := Float.ofScientific 1 false n

/-- Divides by `10 ^ 308` as long as the exponent is below the table of powers; the number of steps
needed to reach zero is below `fuel`. -/
def scaleDown : Nat → Float → Nat → Float
  | 0, f, _ => f
  | fuel + 1, f, e =>
    if e ≤ 308 then f / powerOfTen e
    else if f == 0.0 then f
    else scaleDown fuel (f / powerOfTen 308) (e - 308)

/-- The double that `n * 10 ^ e` is read as; `none` when it is too large. -/
def scale? (n : Nat) : Int → Option Float
  | .ofNat e =>
    let f := Float.ofNat n
    if e ≤ 308 then
      let g := f * powerOfTen e
      if g.isInf then none else some g
    else if n == 0 then some f
    else none
  | .negSucc e => some (scaleDown 8 (Float.ofNat n) (e + 1))

/-- The magnitude of a written exponent; `none` when it does not fit 32 bits. -/
def exponentMagnitude? (ds : List Char) : Option Nat :=
  let n := ds.foldl (fun a c => a * 10 + digit c) 0
  if n < 0x80000000 then some n else none

/-- The double that a number with a fraction or an exponent is read as. -/
def float? (n : Numeral) : Option Float :=
  let (v, e) := n.significand
  let magnitude? := match n.exponent with
    | none => scale? v e
    | some (minus, ds) =>
      match exponentMagnitude? ds with
      | some x => scale? v (clampExponent (if minus then e - x else e + x))
      | none => if v != 0 && !minus then none else some 0.0
  magnitude?.map fun f => if n.negative then -f else f

/-- Whether the number is written as an integer and fits 64 bits; minus zero has no integer form. -/
def int? (n : Numeral) : Option Int :=
  match n.fraction, n.exponent, absorb 0 n.whole with
  | none, none, (v, []) =>
    if !n.negative then some v
    else if v != 0 && v ≤ 0x8000000000000000 then some (-v)
    else none
  | _, _, _ => none

def toJson? (n : Numeral) : Option Json :=
  match n.int? with
  | some i => some (.int i)
  | none => n.float?.map (.float ·.toBits)

end Numeral

end RailsReview.Json
