/-!
# The shortest decimal of a double

A positive double is `m * 2 ^ q`. Every real between the midpoints to its two neighbours rounds to
it, the midpoints included exactly when `m` is even. The shortest decimal is found on the coarsest
grid of powers of ten that has a point in that interval; of two such points the nearer one is taken.
-/
namespace RailsReview.Decimal

/-- A finite double without its sign. -/
structure Magnitude where
  m : Nat
  q : Int
  /-- Whether the neighbour below is half as far away as the one above. -/
  closerBelow : Bool

def Magnitude.ofBits (bits : UInt64) : Magnitude :=
  let n := bits.toNat
  let fraction : Nat := n % 0x10000000000000
  let exponent : Nat := n / 0x10000000000000 % 0x800
  if exponent = 0 then ⟨fraction, -1074, false⟩
  else ⟨0x10000000000000 + fraction, (exponent : Int) - 1075, fraction == 0 && 1 < exponent⟩

def isNegative (bits : UInt64) : Bool := 0x8000000000000000 ≤ bits.toNat

/-- The numerator of `n * 2 ^ q` over the denominator `scaleBelow q`. -/
def scaleAbove (q : Int) : Nat := Nat.pow 2 q.toNat

def scaleBelow (q : Int) : Nat := Nat.pow 2 (-q).toNat

/-- A quarter of the last place is the unit in which value and midpoints are whole numbers. -/
def Magnitude.quarters (x : Magnitude) : Nat := 4 * x.m

def Magnitude.low (x : Magnitude) : Nat := 4 * x.m - (if x.closerBelow then 1 else 2)

def Magnitude.high (x : Magnitude) : Nat := 4 * x.m + 2

/-- Both `n * 10 ^ e` and the quarters of `x`, over one common denominator. -/
def Magnitude.common (x : Magnitude) (e : Int) : Nat × Nat :=
  (Nat.pow 10 e.toNat * scaleBelow (x.q - 2), scaleAbove (x.q - 2) * Nat.pow 10 (-e).toNat)

/-- Whether `n * 10 ^ e` rounds to `x`. -/
def Magnitude.contains (x : Magnitude) (n : Nat) (e : Int) : Bool :=
  let (tens, quarter) := x.common e
  let v := n * tens
  let low := x.low * quarter
  let high := x.high * quarter
  if x.m % 2 == 0 then low ≤ v && v ≤ high else low < v && v < high

/-- The point of the grid of step `10 ^ e` that rounds to `x` and is nearest to it. -/
def Magnitude.gridPoint? (x : Magnitude) (e : Int) : Option Nat :=
  let (tens, quarter) := x.common e
  let v := x.quarters * quarter
  let down := v / tens
  let inside (n : Nat) : Bool := n != 0 && x.contains n e
  match inside down, inside (down + 1) with
  | true, true => if v - down * tens ≤ (down + 1) * tens - v then some down else some (down + 1)
  | true, false => some down
  | false, true => some (down + 1)
  | false, false => none

/-- The first grid with a hit, from step `10 ^ e` downwards. -/
def Magnitude.search (x : Magnitude) : Nat → Int → Nat × Int
  | 0, e => (0, e)
  | steps + 1, e =>
    match x.gridPoint? e with
    | some n => (n, e)
    | none => x.search steps (e - 1)

/-- Significand and exponent of the shortest decimal. Doubles lie between `10 ^ (-324)` and
`10 ^ 309`. -/
def Magnitude.shortest (x : Magnitude) : Nat × Int := x.search 660 309

end RailsReview.Decimal
