/-!
# Numbers by their bit pattern

A script number is a binary64 value, kept as its 64-bit pattern so that every NaN payload and both
zeros stay distinguishable. This module holds what can be said exactly from the bits: the class of a
number, its sign, its value as an integer multiple of a power of two, the two comparisons, and the
passage to and from integers. Rounded arithmetic is in `ScriptEngine.Number.Arithmetic`, text in
`ScriptEngine.Number.Decimal`.
-/

namespace ScriptEngine

/-- The natural number `2 ^ n`. -/
def pow2 (n : Nat) : Nat := Nat.pow 2 n

/-- The natural number `10 ^ n`. -/
def pow10 (n : Nat) : Nat := Nat.pow 10 n

/-- A binary64 number, identified by its bit pattern. -/
structure Number where
  /-- Sign bit, eleven exponent bits, fifty-two fraction bits. -/
  bits : UInt64
  deriving DecidableEq, Inhabited

namespace Number

/-- The number a machine float holds. -/
def ofFloat (x : Float) : Number := ⟨x.toBits⟩

/-- The machine float with this pattern. -/
def toFloat (n : Number) : Float := Float.ofBits n.bits

/-- Positive zero. -/
def zero : Number := ⟨0⟩

/-- The default quiet NaN. -/
def nan : Number := ⟨0x7ff8000000000000⟩

/-- Whether the sign bit is set. -/
def isNegative (n : Number) : Bool := n.bits.toNat / pow2 63 == 1

/-- The eleven exponent bits. -/
def exponentField (n : Number) : Nat := n.bits.toNat / pow2 52 % pow2 11

/-- The fifty-two fraction bits. -/
def fractionField (n : Number) : Nat := n.bits.toNat % pow2 52

/-- The pattern without its sign bit. It orders the numbers of one sign by magnitude. -/
def magnitude (n : Number) : Nat := n.bits.toNat % pow2 63

/-- Whether the number is a NaN. -/
def isNaN (n : Number) : Bool := decide (n.magnitude > 0x7ff0000000000000)

/-- Whether the number is one of the two infinities. -/
def isInfinite (n : Number) : Bool := n.magnitude == 0x7ff0000000000000

/-- Whether the number is neither infinite nor a NaN. -/
def isFinite (n : Number) : Bool := decide (n.magnitude < 0x7ff0000000000000)

/-- Whether the number is one of the two zeros. -/
def isZero (n : Number) : Bool := n.magnitude == 0

/-- The integer significand of a finite number. Subnormals have no hidden bit. -/
def significand (n : Number) : Nat :=
  if n.exponentField = 0 then n.fractionField else pow2 52 + n.fractionField

/-- The power of two that scales the significand of a finite number. -/
def scale (n : Number) : Int :=
  if n.exponentField = 0 then -1074 else (n.exponentField : Int) - 1075

/-- Position on the real line as an integer: equal exactly for equal numbers, NaN aside. -/
def rank (n : Number) : Int :=
  if n.isNegative then -(n.magnitude : Int) else n.magnitude

/-- Numeric equality: the two zeros are equal and a NaN equals nothing. -/
def equals (a b : Number) : Bool :=
  !a.isNaN && !b.isNaN && decide (a.rank = b.rank)

/-- Numeric order. A NaN is below nothing and above nothing. -/
def less (a b : Number) : Bool :=
  !a.isNaN && !b.isNaN && decide (a.rank < b.rank)

/-- Numeric order or equality. -/
def lessEq (a b : Number) : Bool :=
  !a.isNaN && !b.isNaN && decide (a.rank ≤ b.rank)

/-- The same number with the other sign bit. -/
def negate (n : Number) : Number := ⟨n.bits ^^^ 0x8000000000000000⟩

/-- The magnitude of a finite number, rounded toward zero. -/
def wholePart (n : Number) : Nat :=
  if 0 ≤ n.scale then n.significand * pow2 n.scale.toNat
  else n.significand / pow2 (-n.scale).toNat

/-- Whether a finite number has no fractional part. -/
def isWhole (n : Number) : Bool :=
  n.isFinite && (decide (0 ≤ n.scale) || n.significand % pow2 (-n.scale).toNat == 0)

/-- A finite number rounded toward zero, as an integer. -/
def truncate (n : Number) : Int :=
  if n.isNegative then -(n.wholePart : Int) else n.wholePart

/-- The least 64-bit signed integer. -/
def minInt64 : Int := -(pow2 63 : Nat)

/-- The greatest 64-bit signed integer. -/
def maxInt64 : Int := pow2 63 - 1

/-- Rounds toward zero into the 64-bit signed range; values outside it go to the nearer end, and a
NaN goes to zero. -/
def saturate (n : Number) : Int :=
  if n.isNaN then 0
  else if n.isInfinite then (if n.isNegative then minInt64 else maxInt64)
  else max minInt64 (min maxInt64 n.truncate)

/-- Rounds toward zero into the 64-bit unsigned range; values outside it go to the nearer end, and a
NaN goes to zero. -/
def clampWord (n : Number) : Nat :=
  if n.isNaN || n.isNegative then 0
  else if n.isInfinite then pow2 64 - 1
  else min n.wholePart (pow2 64 - 1)

/-- The integer a whole number stands for, clamped to 64 bits. -/
def toIndex? (n : Number) : Option Int :=
  if n.isWhole then some n.saturate else none

/-- The 64-bit integer a number truncates to, if the number lies in `[-2^63, 2^63)`. -/
def toInt64? (n : Number) : Option Int :=
  if n.isFinite && decide (minInt64 ≤ n.truncate ∧ n.truncate ≤ maxInt64) then some n.truncate
  else none

/-- The bit pattern of the double nearest to `m * 2 ^ q`, ties to the even significand, without a
sign. `q` is at least `-1074` or the tail below the smallest unit is rounded away. -/
def roundMagnitude (m : Nat) (q : Int) : Nat :=
  if m = 0 then 0
  else
    let length : Int := (Nat.log2 m : Int) + 1
    -- the unit in the last place, as an exponent of two
    let unit : Int := max (q + length - 53) (-1074)
    let rounded : Nat :=
      if q < unit then
        let half := pow2 ((unit - q).toNat - 1)
        let down := m / (2 * half)
        let rest := m % (2 * half)
        if rest > half || (rest == half && down % 2 == 1) then down + 1 else down
      else m * pow2 (q - unit).toNat
    -- a carry out of the significand moves into the exponent field by itself
    let pattern :=
      if unit = -1074 then rounded
      else (unit + 1074).toNat * pow2 52 + rounded
    min pattern 0x7ff0000000000000

/-- The double nearest to `m * 2 ^ q` with the given sign. -/
def ofScaled (negative : Bool) (m : Nat) (q : Int) : Number :=
  ⟨UInt64.ofNat (roundMagnitude m q + if negative then pow2 63 else 0)⟩

/-- The double nearest to an integer, ties to even. -/
def ofInt (i : Int) : Number := ofScaled (decide (i < 0)) i.natAbs 0

/-- The double nearest to a natural number, ties to even. -/
def ofNat (n : Nat) : Number := ofScaled false n 0

end Number

end ScriptEngine
