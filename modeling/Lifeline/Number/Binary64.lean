/-!
# Binary floating-point numbers

Numbers of the 64-bit binary format as exact values, the nearest such number to a decimal one
(`Binary64.ofDecimal`), and the shortest decimal text that reads back as the number
(`Binary64.text`).
-/

namespace Lifeline

/-- A number of the 64-bit binary format. A finite one is `m * 2 ^ e` or its negative. -/
inductive Binary64 where
  | nan
  | infinite (negative : Bool)
  | finite (negative : Bool) (m : Nat) (e : Int)
deriving Repr, DecidableEq

namespace Binary64

/-! ## Reading -/

/-- The least exponent of a finite number. -/
def minExponent : Int := -1074

/-- The greatest exponent of a finite number. -/
def maxExponent : Int := 971

/-- The factor `m` of a finite number is below this bound, `2 ^ 53`. -/
def factorBound : Nat := 9007199254740992

/-- The fraction `base ^ e * num / den`, for an exponent of either sign. -/
def scale (base : Nat) (e : Int) (num den : Nat) : Nat × Nat :=
  if 0 ≤ e then (num * base.pow e.toNat, den) else (num, den * base.pow (-e).toNat)

/-- The whole number nearest to `num / den`; a half goes to the even neighbour. -/
def roundDiv (num den : Nat) : Nat :=
  let q := num / den
  let r := num % den
  if 2 * r < den then q
  else if den < 2 * r then q + 1
  else if q % 2 == 0 then q else q + 1

/-- The number nearest to the positive fraction `num / den`. -/
def ofFraction (negative : Bool) (num den : Nat) : Binary64 :=
  let guess : Int := (num.log2 : Int) - den.log2 - 53
  let fits (e : Int) : Bool :=
    let (n, d) := scale 2 (-e) num den
    n / d < factorBound
  let e := if fits guess then guess else if fits (guess + 1) then guess + 1 else guess + 2
  let e := max e minExponent
  let (n, d) := scale 2 (-e) num den
  let m := roundDiv n d
  let (m, e) := if m == factorBound then (factorBound / 2, e + 1) else (m, e)
  if maxExponent < e then .infinite negative else .finite negative m e

/-- The number nearest to `digits * 10 ^ exponent`. Magnitudes far outside the format are decided
by their number of digits alone. -/
def ofDecimal (negative : Bool) (digits : Nat) (exponent : Int) : Binary64 :=
  if digits == 0 then .finite negative 0 0
  else
    let magnitude := exponent + (Nat.toDigits 10 digits).length
    if 400 < magnitude then .infinite negative
    else if magnitude < -400 then .finite negative 0 0
    else
      let (num, den) := scale 10 exponent digits 1
      ofFraction negative num den

/-- The number as a whole number, where it is one. -/
def toInt? : Binary64 → Option Int
  | .finite negative m e =>
    let (num, den) := scale 2 e m 1
    if num % den == 0 then
      let n : Int := (num / den : Nat)
      some (if negative then -n else n)
    else none
  | _ => none

/-! ## Writing -/

/-- The exponent of the leading decimal digit of `num / den`, near the guess `x`. At most `fuel`
corrections are made. -/
def leadingExponent (num den : Nat) : (fuel : Nat) → (x : Int) → Int
  | 0, x => x
  | fuel + 1, x =>
    let (n, d) := scale 10 (-x) num den
    if n < d then leadingExponent num den fuel (x - 1)
    else if 10 * d ≤ n then leadingExponent num den fuel (x + 1)
    else x

/-- The digits of the first grid, from `count` digits on, that has a point which reads back as
`m * 2 ^ e`; of two such points the nearer. `x` is the exponent of the leading digit. The result
is a number of digits' size with the exponent of its last digit. -/
def shortestFrom (m : Nat) (e x : Int) : (fuel count : Nat) → Nat × Int
  | 0, _ => (m, e)
  | fuel + 1, count =>
    let grid : Int := x - count + 1
    -- everything in units of a quarter of the last binary place, over a common denominator
    let quarter := e - 2
    let (v, d) := scale 2 quarter (4 * m) 1
    let (high, _) := scale 2 quarter (4 * m + 2) 1
    let (low, _) := scale 2 quarter
      (if m == factorBound / 2 && minExponent < e then 4 * m - 1 else 4 * m - 2) 1
    let (g, gd) := scale 10 grid 1 1
    let below := v * gd / (d * g)
    let inside (c : Nat) : Bool :=
      let point := c * g * d
      if m % 2 == 0 then low * gd ≤ point && point ≤ high * gd
      else low * gd < point && point < high * gd
    let nearerBelow := 2 * (v * gd - below * g * d) ≤ g * d
    match inside below && below != 0, inside (below + 1) with
    | true, true => (if nearerBelow then below else below + 1, grid)
    | true, false => (below, grid)
    | false, true => (below + 1, grid)
    | false, false => shortestFrom m e x fuel (count + 1)

/-- The decimal digits of `n` without the zeros at the end, and how many zeros those were. -/
def trimZeros : (fuel n zeros : Nat) → Nat × Nat
  | 0, n, zeros => (n, zeros)
  | fuel + 1, n, zeros =>
    if n % 10 == 0 && n != 0 then trimZeros fuel (n / 10) (zeros + 1) else (n, zeros)

/-- Digits with a decimal point after the first `point` of them, positional for leading exponents
from -4 to 15 and with an exponent of at least two digits otherwise. -/
def layOut (digits : List Char) (point : Int) : List Char :=
  if -4 < point && point ≤ 16 then
    if point ≤ 0 then '0' :: '.' :: List.replicate (-point).toNat '0' ++ digits
    else
      let whole := digits.take point.toNat
      let zeros := List.replicate (point.toNat - digits.length) '0'
      let rest := digits.drop point.toNat
      whole ++ zeros ++ '.' :: (if rest.isEmpty then ['0'] else rest)
  else
    let exponent := point - 1
    let size := Nat.toDigits 10 exponent.natAbs
    let size := if size.length < 2 then '0' :: size else size
    let mantissa := match digits with
      | [] => []
      | [d] => [d]
      | d :: ds => d :: '.' :: ds
    mantissa ++ 'e' :: (if exponent < 0 then '-' else '+') :: size

/-- The shortest text that reads back as the number. -/
def text : Binary64 → String
  | .nan => "nan"
  | .infinite false => "inf"
  | .infinite true => "-inf"
  | .finite negative m e =>
    let sign := if negative then "-" else ""
    if m == 0 then sign ++ "0.0"
    else
      let (num, den) := scale 2 e m 1
      let guess : Int := (num.log2 : Int) - den.log2
      let x := leadingExponent num den 700 (guess * 3 / 10)
      let (n, last) := shortestFrom m e x 20 1
      let (n, zeros) := trimZeros 400 n 0
      let digits := Nat.toDigits 10 n
      sign ++ String.ofList (layOut digits (last + zeros + digits.length))

end Binary64

end Lifeline
