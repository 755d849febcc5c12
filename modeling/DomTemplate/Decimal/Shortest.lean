/-!
# The shortest decimal of a binary64 number

A positive number `mantissa * 2 ^ exponent` is given the decimal with the fewest digits that reads
back as it; of several with that many digits, the nearest.  All comparisons are between natural
numbers.
-/

namespace DomTemplate.Decimal

/-- The positive number `mantissa * 2 ^ exponent`. -/
structure Binary where
  mantissa : Nat
  exponent : Int
deriving DecidableEq

/-- The positive number `0.d₁d₂… * 10 ^ point` whose digits are those of `digits`. -/
structure Digits where
  digits : List Nat
  point : Int
deriving DecidableEq

/-- The real numbers that are rounded to a binary number, as fractions over one denominator. -/
structure Interval where
  low : Nat
  value : Nat
  high : Nat
  denominator : Nat
  /-- whether the two ends are rounded to the number as well -/
  closed : Bool

/-- `2 ^ n`, and one for a negative `n`. -/
def twoTo (n : Int) : Nat :=
  Nat.pow 2 n.toNat

/-- `10 ^ n`, and one for a negative `n`. -/
def tenTo (n : Int) : Nat :=
  Nat.pow 10 n.toNat

/-- The absolute value of a finite number other than zero. -/
def Binary.ofFloat (x : Float) : Binary :=
  let bits : Nat := x.toBits.toNat
  let fraction : Nat := bits % twoTo 52
  let biased : Nat := bits / twoTo 52 % twoTo 11
  if biased = 0 then ⟨fraction, -1074⟩ else ⟨twoTo 52 + fraction, (biased : Int) - 1075⟩

/-- The interval in quarters of the last place.  Below a power of two the places are half as
wide. -/
def Binary.interval (b : Binary) : Interval :=
  let scale (n : Nat) : Nat := n * twoTo (b.exponent - 2)
  let lowGap := if b.mantissa = twoTo 52 ∧ -1074 < b.exponent then 1 else 2
  { low := scale (4 * b.mantissa - lowGap)
    value := scale (4 * b.mantissa)
    high := scale (4 * b.mantissa + 2)
    denominator := twoTo (2 - b.exponent)
    closed := b.mantissa % 2 = 0 }

namespace Interval

/-- Whether `n * 10 ^ place` is rounded to the number. -/
def holds (i : Interval) (n : Nat) (place : Int) : Bool :=
  let scaled := n * tenTo place * i.denominator
  let unit := tenTo (-place)
  if i.closed then i.low * unit ≤ scaled && scaled ≤ i.high * unit
  else i.low * unit < scaled && scaled < i.high * unit

/-- Whether the number is below `10 ^ place`. -/
def below (i : Interval) (place : Int) : Bool :=
  i.value * tenTo (-place) < tenTo place * i.denominator

/-- The least power of ten above the number.  Every finite number is below `10 ^ 309`, and the
powers are tried downwards from there. -/
def point (i : Interval) : Int :=
  go 640 309
where
  go : Nat → Int → Int
    | 0, place => place
    | n + 1, place => if i.below (place - 1) then go n (place - 1) else place

/-- The number of multiples of `10 ^ place` up to the number. -/
def floor (i : Interval) (place : Int) : Nat :=
  i.value * tenTo (-place) / (tenTo place * i.denominator)

/-- Whether the multiple after `n` is nearer to the number than `n` is; a tie goes to the even
one. -/
def roundsUp (i : Interval) (n : Nat) (place : Int) : Bool :=
  let twice := 2 * i.value * tenTo (-place)
  let middle := (2 * n + 1) * tenTo place * i.denominator
  middle < twice || (middle = twice && n % 2 = 1)

/-- The multiple of `10 ^ place` that stands for the number, if one does. -/
def candidate? (i : Interval) (place : Int) : Option Nat :=
  let n := i.floor place
  match i.holds n place, i.holds (n + 1) place with
  | true, true => some (if i.roundsUp n place then n + 1 else n)
  | true, false => some n
  | false, true => some (n + 1)
  | false, false => none

end Interval

/-- The decimal digits of a natural number without its trailing zeros. -/
def significantDigits (n : Nat) : List Nat :=
  ((Nat.toDigits 10 n).map fun c => c.toNat - '0'.toNat).reverse.dropWhile (· == 0) |>.reverse

/-- Tries ever finer grids; seventeen digits always suffice. -/
def searchFrom (i : Interval) (point : Int) : Nat → Nat → Digits
  | 0, count =>
    let n := i.floor (point - count)
    ⟨significantDigits n, point⟩
  | tries + 1, count =>
    match i.candidate? (point - count) with
    | some n =>
      -- a candidate may be the next power of ten
      let carry : Int := if n = tenTo count then 1 else 0
      ⟨significantDigits n, point + carry⟩
    | none => searchFrom i point tries (count + 1)

/-- The shortest decimal that reads back. -/
def shortest (b : Binary) : Digits :=
  let i := b.interval
  searchFrom i i.point 17 1

end DomTemplate.Decimal
