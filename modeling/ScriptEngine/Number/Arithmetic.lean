import ScriptEngine.Number.Basic

/-!
# Arithmetic on numbers

Sum, difference, product, quotient and power are the correctly rounded machine operations. The
remainder has no rounding at all: both operands are integer multiples of one power of two, so it is
an integer remainder. The bitwise operations act on 64-bit integers and exist only for numbers that
truncate into that range.
-/

namespace ScriptEngine.Number

/-- Rounded sum. -/
def add (a b : Number) : Number := ofFloat (a.toFloat + b.toFloat)

/-- Rounded difference. -/
def sub (a b : Number) : Number := ofFloat (a.toFloat - b.toFloat)

/-- Rounded product. -/
def mul (a b : Number) : Number := ofFloat (a.toFloat * b.toFloat)

/-- Rounded quotient. -/
def div (a b : Number) : Number := ofFloat (a.toFloat / b.toFloat)

/-- Power. -/
def pow (a b : Number) : Number := ofFloat (Float.pow a.toFloat b.toFloat)

/-- The remainder of truncated division, with the sign of the dividend. It is exact. -/
def rem (a b : Number) : Number :=
  if a.isNaN || b.isNaN || a.isInfinite || b.isZero then nan
  else if b.isInfinite || a.isZero then a
  else
    let unit := min a.scale b.scale
    let m := a.significand * pow2 (a.scale - unit).toNat
    let d := b.significand * pow2 (b.scale - unit).toNat
    ofScaled a.isNegative (m % d) unit

/-- A 64-bit word read as a two's-complement integer. -/
def signed (w : BitVec 64) : Number := ofInt w.toInt

/-- The two's-complement word of an integer in the signed 64-bit range. -/
def word (i : Int) : BitVec 64 := BitVec.ofInt 64 i

/-- Applies a word operation to two numbers that truncate into 64 bits. -/
def bitwise (f : BitVec 64 → BitVec 64 → BitVec 64) (a b : Number) : Option Number := do
  let x ← a.toInt64?
  let y ← b.toInt64?
  return signed (f (word x) (word y))

/-- Bitwise conjunction. -/
def bitAnd : Number → Number → Option Number := bitwise (· &&& ·)

/-- Bitwise disjunction. -/
def bitOr : Number → Number → Option Number := bitwise (· ||| ·)

/-- Bitwise exclusive disjunction. -/
def bitXor : Number → Number → Option Number := bitwise (· ^^^ ·)

/-- Left shift, the count taken modulo 64. -/
def shiftLeft : Number → Number → Option Number :=
  bitwise fun x y => x <<< (y.toNat % 64)

/-- Arithmetic right shift, the count taken modulo 64. -/
def shiftRight : Number → Number → Option Number :=
  bitwise fun x y => x.sshiftRight (y.toNat % 64)

/-- Bitwise complement. -/
def invert (a : Number) : Option Number := do
  let x ← a.toInt64?
  return signed (~~~ word x)

/-- Hash of a number used as a table key. Numbers that compare equal hash alike. -/
def keyHash (n : Number) : UInt64 :=
  let bits := if n.isZero then 0 else n.bits
  bits ^^^ (bits >>> 32)

end ScriptEngine.Number
