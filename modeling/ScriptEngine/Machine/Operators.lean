import ScriptEngine.Machine.Fields
import ScriptEngine.Number.Arithmetic

/-!
# Operators

Arithmetic, comparison, equality, hashing and subscripts. Numbers and strings are handled here;
everything else is left to methods of the operands' classes.
-/

namespace ScriptEngine

/-- Binary operators that classes can overload. -/
inductive Operator where
  | add | subtract | multiply | divide | modulo | power
  | less | lessEqual | greater | greaterEqual
  | bitAnd | bitOr | xor | shiftLeft | shiftRight
  deriving DecidableEq, Repr

namespace Operator

/-- The spelling in messages. -/
def symbol : Operator → String
  | .add => "+"
  | .subtract => "-"
  | .multiply => "*"
  | .divide => "/"
  | .modulo => "%"
  | .power => "^"
  | .less => "<"
  | .lessEqual => "<="
  | .greater => ">"
  | .greaterEqual => ">="
  | .bitAnd => "&"
  | .bitOr => "|"
  | .xor => "~"
  | .shiftLeft => "<<"
  | .shiftRight => ">>"

/-- The method of the left operand. -/
def method : Operator → Special
  | .add => .add
  | .subtract => .sub
  | .multiply => .mul
  | .divide => .div
  | .modulo => .mod
  | .power => .pow
  | .less => .lt
  | .lessEqual => .le
  | .greater => .gt
  | .greaterEqual => .ge
  | .bitAnd => .band
  | .bitOr => .bor
  | .xor => .xor
  | .shiftLeft => .lshift
  | .shiftRight => .rshift

/-- The method of the right operand that is tried second. Comparisons have none. -/
def reflected? : Operator → Option Special
  | .add => some .radd
  | .subtract => some .rsub
  | .multiply => some .rmul
  | .divide => some .rdiv
  | .modulo => some .rmod
  | .power => some .rpow
  | .less | .lessEqual | .greater | .greaterEqual => none
  | .bitAnd => some .rband
  | .bitOr => some .rbor
  | .xor => some .rxor
  | .shiftLeft => some .rlshift
  | .shiftRight => some .rrshift

/-- The operator on numbers; `none` if a bitwise operand lies outside the 64-bit integers. -/
def onNumbers : Operator → Number → Number → Option Value
  | .add, a, b => some (.number (a.add b))
  | .subtract, a, b => some (.number (a.sub b))
  | .multiply, a, b => some (.number (a.mul b))
  | .divide, a, b => some (.number (a.div b))
  | .modulo, a, b => some (.number (a.rem b))
  | .power, a, b => some (.number (a.pow b))
  | .less, a, b => some (.bool (a.less b))
  | .lessEqual, a, b => some (.bool (a.lessEq b))
  | .greater, a, b => some (.bool (b.less a))
  | .greaterEqual, a, b => some (.bool (b.lessEq a))
  | .bitAnd, a, b => (a.bitAnd b).map .number
  | .bitOr, a, b => (a.bitOr b).map .number
  | .xor, a, b => (a.bitXor b).map .number
  | .shiftLeft, a, b => (a.shiftLeft b).map .number
  | .shiftRight, a, b => (a.shiftRight b).map .number

end Operator

/-- Hash of an object compared by identity. -/
def identityHash (h : Handle) : UInt64 :=
  let x := UInt64.ofNat h.index
  let x := x ^^^ (x >>> 33)
  let x := x * 0xff51afd7ed558ccd
  x ^^^ (x >>> 33)

namespace Act

/-- A bitwise operand lies outside the 64-bit integers. -/
def noInteger {α : Type} : Act α := fail .typeException "Number has no integer representation"

/-- The strings two values are, if both are strings. -/
def bothStrings (a b : Value) : Act (Option (ByteArray × ByteArray)) :=
  gets fun s =>
    match s.string? a, s.string? b with
    | some x, some y => some (x.data, y.data)
    | _, _ => none

/-- `[a, b]`, which are not both numbers: joins strings, or calls an overload. -/
def overload (op : Operator) (a b : Value) : Act Control := do
  match ← findMethod a op.method with
  | some m => return .invoke m 1
  | none =>
    let reflected ←
      match op.reflected? with
      | some name => findMethod b name
      | none => pure none
    match reflected with
    | some m =>
      replaceTop 2 b
      push a
      return .invoke m 1
    | none =>
      let message ← gets fun s =>
        "Operator " ++ op.symbol ++ " not defined for types " ++ s.kindOf a ++ " and " ++ s.kindOf b
      fail .typeException message

/-- `[a, b] → [a op b]` -/
def binary (op : Operator) : Act Control := do
  let b ← peek 0
  let a ← peek 1
  match a, b with
  | .number x, .number y =>
    match op.onNumbers x y with
    | some v =>
      replaceTop 2 v
      return .next
    | none => noInteger
  | _, _ =>
    let strings ← if op = .add then bothStrings a b else pure none
    match strings with
    | some (x, y) =>
      let h ← newString (x ++ y)
      replaceTop 2 (.object h)
      return .next
    | none => overload op a b

/-- `[a] → [op a]` for an operator with a method as overload. -/
def unary (symbol : String) (method : Special) (onNumber : Number → Option Number) :
    Act Control := do
  let v ← peek 0
  match v with
  | .number n =>
    match onNumber n with
    | some r =>
      replaceTop 1 (.number r)
      return .next
    | none => noInteger
  | _ =>
    match ← findMethod v method with
    | some m => return .invoke m 0
    | none =>
      let kind ← gets (·.kindOf v)
      fail .typeException ("Operator " ++ symbol ++ " not defined for type " ++ kind)

/-- Arithmetic negation. -/
def negate : Act Control := unary "-" .neg fun n => some n.negate

/-- Bitwise complement. -/
def invert : Act Control := unary "~" .inv Number.invert

/-! ## Equality and hashing -/

/-- The method of an object's class for a name, unless it is the one of the root class. -/
def ownMethod (v : Value) (name : Special) : Act (Option Value) := do
  let found ← findMethod v name
  let inherited ← gets fun s => s.method? (s.coreClass .object) (s.special name)
  match found, inherited with
  | some m, some r => return if m.same r then none else some m
  | found, _ => return found

/-- Equality as scripts see it. Strings compare by content, other objects by a method of their
class, and by identity if that is the root class's method. -/
def equal (a b : Value) : Act Bool := do
  match a with
  | .object h =>
    match ← object h with
    | .string x =>
      match ← gets (·.string? b) with
      | some y => return x.data == y.data
      | none => return false
    | _ =>
      match ← ownMethod a .eq with
      | none => return a.same b
      | some m =>
        push a
        push b
        callMethodSync m 1
        return (← pop).isTruthy
  | _ => return a.same b

/-- Hash of a table key. -/
def hash (v : Value) : Act UInt64 := do
  match v with
  | .number n => return n.keyHash
  | .bool true => return 1231
  | .bool false => return 1237
  | .null => return 0
  | .object h =>
    match ← object h with
    | .string x => return x.hash.toUInt64
    | _ =>
      match ← ownMethod v .hash with
      | none => return identityHash h
      | some m =>
        push v
        callMethodSync m 0
        match ← pop with
        | .number n => return n.keyHash
        | _ => fail .typeException "__hash__() must return a Number"

/-- Element-wise equality of two lists of values. -/
def allEqual : List Value → List Value → Act Bool
  | a :: as, b :: bs => do if ← equal a b then allEqual as bs else return false
  | [], [] => pure true
  | _, _ => pure false

/-- Equality of two sequences; those of different lengths are unequal at once. -/
def itemsEqual (a b : Array Value) : Act Bool :=
  if a.size = b.size then allEqual a.toList b.toList else pure false

/-! ## Tables -/

/-- The entry at a position of a table. -/
def tableEntry (table : Handle) (position : Nat) : Act (Option ValueTable.Entry) :=
  gets fun s => (s.table? (.object table)).bind (·.entryAt? position)

/-- The first of some positions whose key equals a key. -/
def firstEqual (table : Handle) (key : Value) : List Nat → Act (Option Nat)
  | [] => pure none
  | p :: rest => do
    match ← tableEntry table p with
    | none => firstEqual table key rest
    | some e => if ← equal e.key key then return some p else firstEqual table key rest

/-- The position of a key whose hash is given. -/
def tableFind (table : Handle) (key : Value) (hash : UInt64) : Act (Option Nat) := do
  let positions ← gets fun s => ((s.table? (.object table)).map (·.candidates hash)).getD []
  firstEqual table key positions

/-- The value of a key. -/
def tableGet (table : Handle) (key : Value) : Act (Option Value) := do
  let hash ← hash key
  match ← tableFind table key hash with
  | some p => return (← tableEntry table p).map (·.value)
  | none => return none

/-- Changes a table in place. -/
def updateTable (table : Handle) (f : ValueTable → ValueTable) : Act Unit :=
  modify (·.update table fun
    | .table t => .table (f t)
    | o => o)

/-- Sets the value of a key. -/
def tableSet (table : Handle) (key value : Value) : Act Unit := do
  let hash ← hash key
  match ← tableFind table key hash with
  | some p => updateTable table (·.setValue p value)
  | none => updateTable table (·.insertNew hash key value)

/-- Deletes a key, and says whether it was there. -/
def tableDelete (table : Handle) (key : Value) : Act Bool := do
  let hash ← hash key
  match ← tableFind table key hash with
  | some p =>
    let found := (← tableEntry table p).isSome
    updateTable table fun t => (t.remove p).1
    return found
  | none => return false

/-- Sets entries from key and value pairs that stand on the stack from an index on. -/
def setEntries (table : Handle) (start : Nat) : Nat → Nat → Act Unit
  | 0, _ => pure ()
  | count + 1, i => do
    let key ← slotAt (start + i * 2)
    let value ← slotAt (start + i * 2 + 1)
    tableSet table key value
    setEntries table start count (i + 1)

/-- `[k0, v0, ..] → [table]` -/
def newTable (count : Nat) : Act Unit := do
  let start ← start (count * 2)
  let table ← alloc (.table .empty)
  push (.object table)
  setEntries table start count 0
  truncate start
  push (.object table)

/-! ## Sequences -/

/-- `[sequence] → [x0, ..]`, ignoring further elements. -/
def unpack (count : Nat) : Act Unit := do
  let v ← peek 0
  let items ← gets fun s => (s.list? v).or (s.tuple? v)
  match items with
  | none =>
    let kind ← gets (·.kindOf v)
    fail .typeException ("Cannot unpack a value of type " ++ kind)
  | some items =>
    if items.size < count then
      fail .typeException
        ("Too few values to unpack: expected " ++ toString count ++ ", got " ++ toString items.size)
    else
      modify fun s => { s with stack := s.stack.pop ++ items.extract 0 count }

/-- A position below a length; negative ones count from the end. -/
def checkIndex (index : Value) (length : Nat) (kind : String) : Act Nat := do
  match index.index? with
  | none => fail .typeException (kind ++ " index must be an integer")
  | some i =>
    let resolved := if i < 0 then i + length else i
    if resolved < 0 ∨ resolved ≥ length then
      fail .indexException (kind ++ " index out of bounds: " ++ toString i)
    else return resolved.toNat

/-- Leaves a subscript to a method of the object's class. -/
def subscriptOverload (v : Value) (method : Special) (argc : Nat) : Act Control := do
  match ← findMethod v method with
  | some m => return .invoke m argc
  | none =>
    let kind ← gets (·.kindOf v)
    fail .typeException ("Object `" ++ kind ++ "` is not subscriptable")

/-- `[object, index] → [object[index]]` -/
def getSubscript : Act Control := do
  let index ← peek 0
  let v ← peek 1
  match v with
  | .object h =>
    match ← object h with
    | .list items =>
      let i ← checkIndex index items.size "List"
      replaceTop 2 (items.getD i .null)
      return .next
    | .tuple items =>
      let i ← checkIndex index items.size "Tuple"
      replaceTop 2 (items.getD i .null)
      return .next
    | .string str =>
      let i ← checkIndex index str.data.size "String"
      let c ← intern ⟨#[str.data.data.getD i 0]⟩
      replaceTop 2 (.object c)
      return .next
    | .table _ =>
      let found ← tableGet h index
      replaceTop 2 (found.getD .null)
      return .next
    | _ => subscriptOverload v .get 1
  | _ => subscriptOverload v .get 1

/-- The length of a list, `none` for other objects. -/
def listLength? : Object → Option Nat
  | .list items => some items.size
  | _ => none

/-- Whether an object is a table. -/
def isTable : Object → Bool
  | .table _ => true
  | _ => false

/-- A list with an element overwritten. -/
def withItem (i : Nat) (value : Value) : Object → Object
  | .list items => .list (items.setIfInBounds i value)
  | o => o

/-- `[object, index, value] → [value]` -/
def setSubscript : Act Control := do
  let value ← peek 0
  let index ← peek 1
  let v ← peek 2
  match v with
  | .object h =>
    let length ← require (fun s => (s.heap.get? h).map listLength?) .danglingHandle
    match length with
    | some length =>
      let i ← checkIndex index length "List"
      modify fun s => { s with heap := s.heap.update h (withItem i value) }
      replaceTop 3 value
      return .next
    | none =>
      if ← gets fun s => (s.heap.get? h).any isTable then
        tableSet h index value
        replaceTop 3 value
        return .next
      else subscriptOverload v .set 2
  | _ => subscriptOverload v .set 2

end Act

end ScriptEngine
