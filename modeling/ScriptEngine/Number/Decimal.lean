import ScriptEngine.Number.Basic

/-!
# Decimal text of numbers

`shortest` finds the fewest decimal digits that read back as a given number, and among those the
nearest to it, by exact integer arithmetic on the interval of reals that round to the number.
`text` lays digits out positionally, never with an exponent. `display` is the script's own form:
whole numbers below `10^15` as integers, so that both zeros are `0`.
-/

namespace ScriptEngine.Number

/-- A decimal `digits * 10 ^ exponent`. -/
structure Decimal where
  /-- The digits, read as one natural number. -/
  digits : Nat
  /-- The power of ten of the last digit. -/
  exponent : Int
  deriving DecidableEq

/-- The reals that round to one positive number, on the scale `num / den`: the number itself is
`4 * significand * unit`, and the two ends lie `below` and `above` it in the same unit. -/
structure Interval where
  /-- The number. -/
  value : Nat
  /-- The lower end. -/
  low : Nat
  /-- The upper end. -/
  high : Nat
  /-- Common denominator of the three. -/
  den : Nat
  /-- Whether the ends themselves round to the number. -/
  closed : Bool

/-- The rounding interval of a positive finite number. The gap below a power of two is half the gap
above it. -/
def interval (n : Number) : Interval :=
  let m := n.significand
  let q := n.scale - 2
  let up := if 0 ≤ q then pow2 q.toNat else 1
  let den := if 0 ≤ q then 1 else pow2 (-q).toNat
  let below := if m = pow2 52 then 1 else 2
  { value := 4 * m * up
    low := (4 * m - below) * up
    high := (4 * m + 2) * up
    den := den
    closed := m % 2 == 0 }

/-- Whether the decimal point `d * 10 ^ e` lies in the interval. -/
def Interval.contains (i : Interval) (d : Nat) (e : Int) : Bool :=
  let lhs := if 0 ≤ e then d * pow10 e.toNat * i.den else d * i.den
  let factor := if 0 ≤ e then 1 else pow10 (-e).toNat
  if i.closed then decide (i.low * factor ≤ lhs ∧ lhs ≤ i.high * factor)
  else decide (i.low * factor < lhs ∧ lhs < i.high * factor)

/-- The decimal grid point at or below the interval's number, with the remainder in the grid's
unit as a fraction: `(point, remainder, unit)`. -/
def Interval.gridFloor (i : Interval) (e : Int) : Nat × Nat × Nat :=
  let num := if 0 ≤ e then i.value else i.value * pow10 (-e).toNat
  let den := if 0 ≤ e then i.den * pow10 e.toNat else i.den
  (num / den, num % den, den)

/-- The best point of the grid `10 ^ e` inside the interval, if one of the two neighbours of the
number is inside. The nearer neighbour wins, the upper one on a tie. -/
def Interval.onGrid (i : Interval) (e : Int) : Option Decimal :=
  let (d, rest, unit) := i.gridFloor e
  let down := i.contains d e
  let up := i.contains (d + 1) e
  if up && (!down || decide (2 * rest ≥ unit)) then some ⟨d + 1, e⟩
  else if down then some ⟨d, e⟩
  else none

/-- The number of decimal digits of a natural number; zero has none. -/
def digitCount (n : Nat) : Nat :=
  if n = 0 then 0 else (Nat.toDigits 10 n).length

/-- The least `k` with `value < 10 ^ k`. -/
def Interval.magnitude (i : Interval) : Int :=
  if i.den ≤ i.value then digitCount (i.value / i.den)
  else
    -- value / den < 1: count the zeros after the point
    let zeros := (digitCount ((i.den - 1) / i.value) : Int)
    1 - zeros

/-- Searches ever finer grids, starting with `count` digits. Seventeen digits always suffice. -/
def Interval.search (i : Interval) (top : Int) : Nat → Nat → Option Decimal
  | 0, _ => none
  | fuel + 1, count =>
    match i.onGrid (top - count) with
    | some d => some d
    | none => i.search top fuel (count + 1)

/-- The shortest decimal that reads back as a positive finite number, nearest to it among the
shortest. -/
def shortest (n : Number) : Decimal :=
  let i := n.interval
  (i.search i.magnitude 18 1).getD ⟨0, 0⟩

/-- A decimal written positionally, without an exponent and without a trailing point. -/
def Decimal.positional (d : Decimal) : String :=
  let digits := Nat.toDigits 10 d.digits
  if 0 ≤ d.exponent then String.ofList (digits ++ List.replicate d.exponent.toNat '0')
  else
    let places := (-d.exponent).toNat
    if digits.length ≤ places then
      String.ofList ('0' :: '.' :: (List.replicate (places - digits.length) '0' ++ digits))
    else
      let whole := digits.length - places
      String.ofList (digits.take whole ++ '.' :: digits.drop whole)

/-- Drops zero digits at the end of the fraction. -/
def Decimal.trim : Nat → Decimal → Decimal
  | 0, d => d
  | fuel + 1, d =>
    if d.exponent < 0 && d.digits % 10 == 0 && d.digits != 0 then
      Decimal.trim fuel ⟨d.digits / 10, d.exponent + 1⟩
    else d

/-- A number in positional notation with the fewest digits that read back. -/
def text (n : Number) : String :=
  if n.isNaN then "NaN"
  else
    let sign := if n.isNegative then "-" else ""
    if n.isInfinite then sign ++ "inf"
    else if n.isZero then sign ++ "0"
    else sign ++ (n.shortest.trim 20).positional

/-- The form scripts print: whole numbers below `10^15` as integers, `nan` and `inf` in words. -/
def display (n : Number) : String :=
  if n.isNaN then "nan"
  else if n.isInfinite then (if n.isNegative then "-inf" else "inf")
  else if n.isWhole && decide (n.wholePart < pow10 15) then toString n.truncate
  else n.text

end ScriptEngine.Number
