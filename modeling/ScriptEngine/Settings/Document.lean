import ScriptEngine.Number.Arithmetic
import ScriptEngine.Text.Hex

/-!
# JSON documents

A reader of JSON for settings. Numbers stay literals, because what a literal may be depends on the
setting it is for, and strings stay code units, because an unpaired surrogate is an error only where
the string is looked at.
-/

namespace ScriptEngine.Settings

/-- A number as written. -/
structure Literal where
  /-- Whether there is a minus sign. -/
  negative : Bool
  /-- Digits before the point. -/
  whole : List Nat
  /-- Digits after the point. -/
  fraction : Option (List Nat)
  /-- Exponent. -/
  exponent : Option Int
  deriving DecidableEq, Repr

namespace Literal

/-- The greatest 64-bit word. -/
def maxWord : Nat := pow2 64 - 1

/-- The number some decimal digits stand for. -/
def ofDigits (digits : List Nat) : Nat := digits.foldl (fun n d => n * 10 + d) 0

/-- The 64-bit word of an integer literal without a sign. -/
def word? (l : Literal) : Option Nat :=
  match l with
  | ⟨false, digits, none, none⟩ =>
    let n := ofDigits digits
    if n ≤ maxWord then some n else none
  | _ => none

/-- Appends digits to a significand until one does not fit into 64 bits, and gives those left. -/
def fill (significand : Nat) : List Nat → Nat × List Nat
  | [] => (significand, [])
  | d :: rest =>
    if significand * 10 + d ≤ maxWord then fill (significand * 10 + d) rest
    else (significand, d :: rest)

/-- Divides by a power of ten, by `10 ^ 308` at a time. -/
def divideByPower (x : Number) (e : Nat) : Number :=
  if e ≤ 308 then x.div (.ofNat (pow10 e))
  else if x.isZero then x
  else divideByPower (x.div (.ofNat (pow10 308))) (e - 308)
termination_by e

/-- Multiplies by a power of ten; `none` if the result is too large. -/
def multiplyByPower (x : Number) (e : Nat) : Option Number :=
  if e ≤ 308 then
    let product := x.mul (.ofNat (pow10 e))
    if product.isInfinite then none else some product
  else if x.isZero then some x
  else none

/-- The number of a literal, `none` if it is too large. The digits that fit into 64 bits are rounded
to a double, which is then scaled by the power of ten. -/
def number? (l : Literal) : Option Number :=
  let (significand, dropped) := fill 0 l.whole
  let digits := l.fraction.getD []
  let (significand, left) := fill significand digits
  let scale : Int :=
    (dropped.length : Int) - (digits.length - left.length : Nat) + l.exponent.getD 0
  let start := Number.ofNat significand
  let magnitude :=
    if 0 ≤ scale then multiplyByPower start scale.toNat
    else some (divideByPower start (-scale).toNat)
  magnitude.map fun x => if l.negative then x.negate else x

end Literal

/-- A JSON value. -/
inductive Document where
  | null
  | bool (b : Bool)
  | number (l : Literal)
  /-- A string by its code units. -/
  | text (units : List Nat)
  | array (items : List Document)
  /-- Fields in order, with repetition. -/
  | object (fields : List (List Nat × Document))
  deriving Inhabited

namespace Document

/-- The characters of code units; a surrogate without its partner has none. -/
def characters? : List Nat → Option (List Char)
  | [] => some []
  | u :: rest =>
    if 0xD800 ≤ u ∧ u < 0xDC00 then
      match rest with
      | v :: rest =>
        if 0xDC00 ≤ v ∧ v < 0xE000 then
          (characters? rest).map
            (Char.ofNat (0x10000 + (u - 0xD800) * 0x400 + (v - 0xDC00)) :: ·)
        else none
      | [] => none
    else if 0xDC00 ≤ u ∧ u < 0xE000 then none
    else (characters? rest).map (Char.ofNat u :: ·)

/-! ## Reading -/

/-- Whether a character may stand between tokens. -/
def isBlank (c : Char) : Bool := c == ' ' || c == '\n' || c == '\t' || c == '\r'

/-- Drops blanks. -/
def skipBlanks (cs : List Char) : List Char := cs.dropWhile isBlank

/-- The value of a decimal digit. -/
def digit? (c : Char) : Option Nat :=
  if '0' ≤ c ∧ c ≤ '9' then some (c.toNat - '0'.toNat) else none

/-- The code unit of a four-digit escape. -/
def hexUnit? (a b c d : Char) : Option Nat := Text.hexNat? [a, b, c, d]

/-- The character a one-letter escape stands for. -/
def simpleEscape? : Char → Option Char
  | '"' => some '"'
  | '\\' => some '\\'
  | '/' => some '/'
  | 'b' => some '\x08'
  | 'f' => some '\x0c'
  | 'n' => some '\n'
  | 'r' => some '\r'
  | 't' => some '\t'
  | _ => none

/-- Reads a string after its opening quote. -/
def readText : List Char → Option (List Nat × List Char)
  | [] => none
  | '"' :: rest => some ([], rest)
  | '\\' :: 'u' :: a :: b :: c :: d :: rest => do
    let u ← hexUnit? a b c d
    let (units, rest) ← readText rest
    return (u :: units, rest)
  | '\\' :: c :: rest => do
    let e ← simpleEscape? c
    let (units, rest) ← readText rest
    return (e.toNat :: units, rest)
  | c :: rest =>
    if c.toNat < 0x20 then none
    else do
      let (units, rest) ← readText rest
      return (c.toNat :: units, rest)

/-- Reads digits. -/
def readDigits : List Char → List Nat × List Char
  | [] => ([], [])
  | c :: rest =>
    match digit? c with
    | some d =>
      let (digits, rest) := readDigits rest
      (d :: digits, rest)
    | none => ([], c :: rest)

/-- Reads at least one digit. -/
def readDigits1 (cs : List Char) : Option (List Nat × List Char) :=
  match readDigits cs with
  | ([], _) => none
  | result => some result

/-- Reads the digits before the point: a zero alone, or digits that do not begin with zero. -/
def readWhole (cs : List Char) : Option (List Nat × List Char) :=
  match readDigits cs with
  | ([], _) => none
  | (0 :: _ :: _, _) => none
  | result => some result

/-- Reads the point and the digits after it, if there is a point. -/
def readFraction : List Char → Option (Option (List Nat) × List Char)
  | '.' :: rest => (readDigits1 rest).map fun (digits, rest) => (some digits, rest)
  | cs => some (none, cs)

/-- Reads a sign. -/
def readSign : List Char → Bool × List Char
  | '+' :: rest => (false, rest)
  | '-' :: rest => (true, rest)
  | cs => (false, cs)

/-- Reads an exponent after its mark. -/
def readPower (cs : List Char) : Option (Option Int × List Char) := do
  let (negative, cs) := readSign cs
  let (digits, cs) ← readDigits1 cs
  let e : Int := Literal.ofDigits digits
  return (some (if negative then -e else e), cs)

/-- Reads an exponent, if there is one. -/
def readExponent : List Char → Option (Option Int × List Char)
  | 'e' :: rest => readPower rest
  | 'E' :: rest => readPower rest
  | cs => some (none, cs)

/-- Reads a number after its sign. -/
def readNumber (negative : Bool) (cs : List Char) : Option (Document × List Char) := do
  let (whole, cs) ← readWhole cs
  let (fraction, cs) ← readFraction cs
  let (exponent, cs) ← readExponent cs
  return (.number ⟨negative, whole, fraction, exponent⟩, cs)

/-- Drops a word that must come next. -/
def expect (word : String) (cs : List Char) : Option (List Char) :=
  if word.toList.isPrefixOf cs then some (cs.drop word.length) else none

mutual

/-- Reads a value that begins with the first character. Each value takes one unit of fuel and at
least one character. -/
def readValue : Nat → List Char → Option (Document × List Char)
  | 0, _ => none
  | _ + 1, [] => none
  | fuel + 1, c :: rest =>
    match c with
    | '\x7b' =>
      match skipBlanks rest with
      | '\x7d' :: rest => some (.object [], rest)
      | rest => (readFields fuel rest).map fun (fields, rest) => (.object fields, rest)
    | '[' =>
      match skipBlanks rest with
      | ']' :: rest => some (.array [], rest)
      | rest => (readItems fuel rest).map fun (items, rest) => (.array items, rest)
    | '"' => (readText rest).map fun (units, rest) => (.text units, rest)
    | 't' => (expect "rue" rest).map fun rest => (.bool true, rest)
    | 'f' => (expect "alse" rest).map fun rest => (.bool false, rest)
    | 'n' => (expect "ull" rest).map fun rest => (.null, rest)
    | '-' => readNumber true rest
    | _ => readNumber false (c :: rest)

/-- Reads the items of an array up to its closing bracket. -/
def readItems : Nat → List Char → Option (List Document × List Char)
  | 0, _ => none
  | fuel + 1, cs => do
    let (v, cs) ← readValue fuel cs
    match skipBlanks cs with
    | ']' :: rest => return ([v], rest)
    | ',' :: rest =>
      let (items, rest) ← readItems fuel (skipBlanks rest)
      return (v :: items, rest)
    | _ => none

/-- Reads the fields of an object up to its closing brace. -/
def readFields : Nat → List Char → Option (List (List Nat × Document) × List Char)
  | 0, _ => none
  | fuel + 1, cs => do
    match cs with
    | '"' :: rest =>
      let (key, rest) ← readText rest
      match skipBlanks rest with
      | ':' :: rest =>
        let (v, rest) ← readValue fuel (skipBlanks rest)
        match skipBlanks rest with
        | '\x7d' :: rest => return ([(key, v)], rest)
        | ',' :: rest =>
          let (fields, rest) ← readFields fuel (skipBlanks rest)
          return ((key, v) :: fields, rest)
        | _ => none
      | _ => none
    | _ => none

end

/-- Reads a text that is one JSON value. -/
def ofText? (text : String) : Option Document :=
  let cs := skipBlanks text.toList
  match readValue (2 * cs.length + 2) cs with
  | some (d, rest) => if (skipBlanks rest).isEmpty then some d else none
  | none => none

end Document

end ScriptEngine.Settings
