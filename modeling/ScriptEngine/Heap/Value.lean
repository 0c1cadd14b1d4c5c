import ScriptEngine.Number.Basic

/-!
# Values

Scalars are values by themselves; everything else is a handle to an object of the heap. The equality
here is identity: numbers compare numerically and objects by handle. Equality that classes can
overload belongs to the machine.
-/

namespace ScriptEngine

/-- An index into the heap. -/
structure Handle where
  /-- The arena slot. -/
  index : Nat
  deriving DecidableEq, Hashable, Inhabited, Repr

/-- A script value. -/
inductive Value where
  | number (n : Number)
  | bool (b : Bool)
  | null
  | object (h : Handle)
  deriving DecidableEq, Inhabited

namespace Value

/-- The number a value is. -/
def number? : Value → Option Number
  | .number n => some n
  | _ => none

/-- The truth value a value is. -/
def bool? : Value → Option Bool
  | .bool b => some b
  | _ => none

/-- The handle a value is. -/
def handle? : Value → Option Handle
  | .object h => some h
  | _ => none

/-- Whether a value is null. -/
def isNull : Value → Bool
  | .null => true
  | _ => false

/-- Only `null` and `false` count as false. -/
def isTruthy : Value → Bool
  | .null | .bool false => false
  | _ => true

/-- Identity: numeric equality for numbers, the same handle for objects. -/
def same : Value → Value → Bool
  | .number a, .number b => a.equals b
  | .bool a, .bool b => a == b
  | .null, .null => true
  | .object a, .object b => a == b
  | _, _ => false

/-- The integer a whole number stands for, clamped to 64 bits. -/
def index? : Value → Option Int
  | .number n => n.toIndex?
  | _ => none

end Value

/-- The successor of a position. Positions are words of sixty-four bits; that of the greatest one
overflows. -/
def nextWord? (p : Nat) : Option Nat := if p + 1 < pow2 64 then some (p + 1) else none

/-- Below the last word there is a next one. -/
theorem nextWord?_of_lt {p : Nat} (h : p + 1 < pow2 64) : nextWord? p = some (p + 1) := if_pos h

/-- The last word has no next one. -/
theorem nextWord?_of_le {p : Nat} (h : pow2 64 ≤ p + 1) : nextWord? p = none :=
  if_neg (Nat.not_lt_of_le h)

/-- A variable captured by closures: a slot of the stack while the variable lives there, a value of
its own afterwards. -/
inductive Upvalue where
  | opened (slot : Nat)
  | closed (value : Value)
  deriving DecidableEq

end ScriptEngine
