import ScriptEngine.Machine.Operators

/-!
# Slots

The interface through which host-side code works with a machine. Slots count from the receiver of
the running host function, or from the bottom of the stack outside one; negative slots count from
the top, `-1` being the top.
-/

namespace ScriptEngine

/-- The stack index of a slot. -/
def State.slotIndex? (s : State) (slot : Int) : Option Nat :=
  if 0 ≤ slot then some (s.apiBase + slot.toNat)
  else if (-slot).toNat ≤ s.stack.size then some (s.stack.size - (-slot).toNat)
  else none

/-- What a value is to the host. -/
inductive SlotKind where
  | number | bool | null | string | list | table | instanceOf | other
  deriving DecidableEq, Repr

/-- The name of a kind. -/
def SlotKind.name : SlotKind → String
  | .number => "number"
  | .bool => "bool"
  | .null => "null"
  | .string => "string"
  | .list => "list"
  | .table => "table"
  | .instanceOf => "instance"
  | .other => "other"

/-- The kind of a value. -/
def State.slotKind (s : State) : Value → SlotKind
  | .number _ => .number
  | .bool _ => .bool
  | .null => .null
  | .object h =>
    match s.heap.get? h with
    | some (.string _) => .string
    | some (.list _) => .list
    | some (.table _) => .table
    | some (.instanceOf _ _) => .instanceOf
    | _ => .other

namespace Act

/-- The value of a slot. -/
def getSlot (slot : Int) : Act Value :=
  require (fun s => (s.slotIndex? slot).bind fun i => s.stack[i]?) .slot

/-- Overwrites a slot. -/
def setSlot (slot : Int) (v : Value) : Act Unit := do
  setSlotAt (← require (·.slotIndex? slot) .slot) v

/-- Pushes a new empty list. -/
def pushList : Act Unit := do push (.object (← alloc (.list #[])))

/-- Pushes a new empty table. -/
def pushTable : Act Unit := do push (.object (← alloc (.table .empty)))

/-- Packs the top values into an object made of them. -/
def pack (count : Nat) (make : Array Value → Object) : Act Unit := do
  let start ← start count
  let items ← gets (·.slotsFrom start)
  let h ← alloc (make items)
  truncate start
  push (.object h)

/-- Packs the top values into a tuple. -/
def pushTuple (count : Nat) : Act Unit := pack count .tuple

/-- Pops the top value and appends it to the list of a slot. -/
def listAppend (slot : Int) : Act Unit := do
  let list ← getSlot slot
  let v ← pop
  match list with
  | .object h => modify (·.appendTo h v)
  | _ => pure ()

/-- The number of a slot. -/
def numberAt (slot : Int) : Act (Option Number) := do return (← getSlot slot).number?

/-- The text of a slot. -/
def textAt (slot : Int) : Act (Option String) := do
  let v ← getSlot slot
  gets fun s => (s.string? v).map fun str => Text.lossy str.data

/-- The number of a slot, or an exception that names the argument. -/
def checkNumber (slot : Int) (name : String) : Act Number := do
  match ← numberAt slot with
  | some n => return n
  | none => fail .typeException (name ++ " must be a Number")

/-- The text of a slot, or an exception that names the argument. -/
def checkText (slot : Int) (name : String) : Act String := do
  match ← textAt slot with
  | some t => return t
  | none => fail .typeException (name ++ " must be a String")

/-- Pushes a global of a module, and says whether there is one. -/
def pushGlobal (module name : String) : Act Bool := do
  let found ← gets fun s => do
    let moduleKey ← s.heap.lookupKey module
    let key ← s.heap.lookupKey name
    let h ← s.loadedModule? moduleKey
    s.global? h key
  match found with
  | some v =>
    push v
    return true
  | none => return false

/-- Sets a global of a module to the top value, and says whether the module is loaded. -/
def storeGlobal (module name : String) : Act Bool := do
  match ← gets fun s => (s.heap.lookupKey module).bind s.loadedModule? with
  | none => return false
  | some h =>
    let key ← internKey name
    let v ← peek 0
    modify (·.setGlobal h key v)
    return true

/-- Pushes a field of the value of a slot. -/
def pushField (slot : Int) (name : String) : Act Unit := do
  let v ← getSlot slot
  let key ← internKey name
  push (← getField v key)

/-- Sets a field of the value of a slot to the top value. -/
def storeField (slot : Int) (name : String) : Act Unit := do
  let v ← getSlot slot
  let key ← internKey name
  let value ← peek 0
  setField v key value

/-- Calls a method by name on the receiver below `argc` arguments. -/
def callMethodNamed (name : String) (argc : Nat) : Act Unit := do
  let key ← internKey name
  let receiver ← peek argc
  let c ← classOf receiver
  match ← gets (·.method? c key) with
  | some m => callMethodSync m argc
  | none =>
    let _ ← attempt (noMethod c key)
    modify fun s => s.settle (s.stack.size - 2 - argc)
    raise

/-- Raises a new exception of a core class by name, or of the root exception class. -/
def raiseNamed {α : Type} (name message : String) : Act α := do
  let c ← gets fun s =>
    let found := do
      let key ← s.heap.lookupKey name
      let h ← (← s.global? s.core.module key).handle?
      if (s.class? h).isSome then some h else none
    found.getD (s.coreClass .exception)
  failWith c message

/-- Raises the exception of a slot. -/
def raiseSlot {α : Type} (slot : Int) : Act α := do
  push (← getSlot slot)
  raiseTop

end Act

end ScriptEngine
