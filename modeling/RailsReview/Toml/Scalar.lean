import RailsReview.Toml.Quoted
import RailsReview.Toml.Value

/-!
# Numbers and truth values
-/
namespace RailsReview.Toml

/-- Digits without the single underscores that may stand between two of them. -/
def grouped? (isDigit : Char → Bool) : List Char → Option (List Char)
  | [] => none
  | [c] => if isDigit c then some [c] else none
  | c :: '_' :: rest => if isDigit c then (grouped? isDigit rest).map (c :: ·) else none
  | c :: rest => if isDigit c then (grouped? isDigit rest).map (c :: ·) else none

/-- Decimal digits without a needless zero in front. -/
def decimal? (cs : List Char) : Option (List Char) :=
  (grouped? Char.isDigit cs).filter fun ds => ds.length = 1 || ds.head? != some '0'

def valueOf (base : Nat) (digits : List Char) : Nat :=
  digits.foldl (fun n c => n * base + (hexValue? c).getD 0) 0

/-- A sign and the characters after it. -/
def signed : List Char → Bool × List Char
  | '-' :: cs => (true, cs)
  | '+' :: cs => (false, cs)
  | cs => (false, cs)

/-- Integers have 64 bits. -/
def inRange (i : Int) : Bool := -0x8000000000000000 ≤ i && i < 0x8000000000000000

def isDigitOf (base : Nat) (c : Char) : Bool := (hexValue? c).any (· < base)

/-- Reads an integer; one in another base than ten has no sign. -/
def int? (cs : List Char) : Option Int :=
  let inBase (base : Nat) (ds : List Char) : Option Int :=
    (grouped? (isDigitOf base) ds).map fun ds => .ofNat (valueOf base ds)
  let i := match cs with
    | '0' :: 'x' :: ds => inBase 16 ds
    | '0' :: 'o' :: ds => inBase 8 ds
    | '0' :: 'b' :: ds => inBase 2 ds
    | _ =>
      let (negative, ds) := signed cs
      (decimal? ds).map fun ds =>
        let n : Int := .ofNat (valueOf 10 ds)
        if negative then -n else n
  i.filter inRange

/-- Whether the characters are a fraction, or an exponent with or without a sign. -/
def isExponent (cs : List Char) : Bool := (grouped? Char.isDigit (signed cs).2).isSome

def isFraction (cs : List Char) : Bool := (grouped? Char.isDigit cs).isSome

/-- What follows the first character that satisfies `p`. -/
def afterFirst? (p : Char → Bool) (cs : List Char) : Option (List Char) :=
  match cs.dropWhile (!p ·) with
  | [] => none
  | _ :: rest => some rest

def isExponentMark (c : Char) : Bool := c == 'e' || c == 'E'

/-- Whether the characters are a number with a fraction or an exponent, or no finite number. -/
def isFloat (cs : List Char) : Bool :=
  let number := (signed cs).2
  let mantissa := number.takeWhile (!isExponentMark ·)
  let fraction := afterFirst? (· == '.') mantissa
  let exponent := afterFirst? isExponentMark number
  number == "inf".toList || number == "nan".toList
    || ((fraction.isSome || exponent.isSome)
      && (decimal? (mantissa.takeWhile (· != '.'))).isSome
      && fraction.all isFraction && exponent.all isExponent)

def digitsOf (cs : List Char) : List Char := cs.filter Char.isDigit

/-- The digits of a number without a sign as one number, and the power of ten that scales it. -/
def scaled (number : List Char) : Nat × Int :=
  let mantissa := number.takeWhile (!isExponentMark ·)
  let fraction := (afterFirst? (· == '.') mantissa).getD []
  let (negative, exponent) := signed ((afterFirst? isExponentMark number).getD [])
  let e : Int := .ofNat (valueOf 10 (digitsOf exponent))
  (valueOf 10 (digitsOf mantissa), (if negative then -e else e) - (digitsOf fraction).length)

/-- From halfway between the greatest double and the next power of two, numbers have no double. -/
def doubleBound : Nat := Nat.pow 2 1024 - Nat.pow 2 970

/-- Whether `n * 10 ^ e` has no double. The bound has 309 digits, so only a number with as many
digits in front of its point has to be compared with it. -/
def exceedsDoubles (n : Nat) (e : Int) : Bool :=
  let digits : Int := (Nat.toDigits 10 n).length + e
  n != 0 && (decide (309 < digits)
    || digits == 309 && decide (doubleBound * Nat.pow 10 (-e).toNat ≤ n * Nat.pow 10 e.toNat))

/-- Whether a number is too large; below zero there is no bound. -/
def isTooLarge (cs : List Char) : Bool :=
  let (negative, number) := signed cs
  let (n, e) := scaled number
  !negative && exceedsDoubles n e

/-- Reads a value without quotes or brackets. -/
def scalarValue? (cs : List Char) : Option Value :=
  if cs = "true".toList then some (.bool true)
  else if cs = "false".toList then some (.bool false)
  else if isFloat cs then
    if isTooLarge cs then none else some (.float (String.ofList cs))
  else (int? cs).map .int

end RailsReview.Toml
