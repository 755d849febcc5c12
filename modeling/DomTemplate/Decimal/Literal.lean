import DomTemplate.Decimal.Shortest

/-!
# Binary64 numbers in messages

A number is written with the fewest digits that read back.  It is written positionally, with at
least one digit on either side of the point, from `0.00001` up to below `10 ^ 16`, and with a signed
exponent otherwise.
-/

namespace DomTemplate.Decimal

def digitChars (digits : List Nat) : List Char :=
  digits.map Nat.digitChar

/-- Digits with the point inside, before or behind them. -/
def positional (d : Digits) : List Char :=
  let chars := digitChars d.digits
  if d.point ≤ 0 then ['0', '.'] ++ List.replicate (-d.point).toNat '0' ++ chars
  else
    let whole := d.point.toNat
    if chars.length ≤ whole then
      chars ++ List.replicate (whole - chars.length) '0' ++ ['.', '0']
    else chars.take whole ++ '.' :: chars.drop whole

/-- One digit, a point if more follow, and the exponent with its sign. -/
def scientific (d : Digits) : List Char :=
  let exponent := d.point - 1
  let mantissa :=
    match digitChars d.digits with
    | [] => ['0']
    | [c] => [c]
    | c :: rest => c :: '.' :: rest
  mantissa ++ ['e', if exponent < 0 then '-' else '+'] ++ Nat.toDigits 10 exponent.natAbs

/-- The written form of a finite number. -/
def literal (x : Float) : String :=
  let negative := x.toBits >>> 63 = 1
  let body :=
    if x == 0 then ['0', '.', '0']
    else
      let d := shortest (Binary.ofFloat x)
      if -4 ≤ d.point ∧ d.point ≤ 16 then positional d else scientific d
  String.ofList (if negative then '-' :: body else body)

end DomTemplate.Decimal
