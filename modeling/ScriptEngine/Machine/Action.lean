import ScriptEngine.Machine.State

/-!
# Actions of host-side code

Instructions, core functions and host functions are actions: they change the state, and may fail
with an exception on top of the stack. An action that needs a script call does not make it itself.
It stops at a `Proc.call` that says what to call and how to go on once the call has returned or
raised, and the machine runs the call as part of its own loop. Actions therefore always end, also
when the scripts they call do not.

A `Fault` is not an exception: scripts cannot observe it. It marks a state that well-formed code
never reaches, such as a slot outside the stack, or an arithmetic overflow, where the engine stops.
-/

namespace ScriptEngine

/-- Reasons for which a machine stops dead. -/
inductive Fault where
  /-- A slot outside the stack, or more values needed than there are. -/
  | slot
  /-- A handle without an object. -/
  | danglingHandle
  /-- An instruction offset outside the code. -/
  | codeEnd
  /-- An instruction that needs a frame where there is none. -/
  | noFrame
  /-- A constant of the wrong kind. -/
  | constant
  /-- A captured variable that the closure does not have. -/
  | upvalue
  /-- An object of the wrong kind. -/
  | kind
  /-- More defaults than parameters. -/
  | signature
  /-- `yield` in a frame that runs no generator. -/
  | yield
  /-- A module that was never loaded. -/
  | module
  /-- The heap ceiling cannot be kept. -/
  | heapLimit
  /-- A position past the greatest word. -/
  | overflow
  /-- A chain of superclasses without an end. -/
  | endless
  deriving DecidableEq, Repr

/-- An action under way. -/
inductive Proc (α : Type) where
  /-- It has ended with a result. -/
  | done (result : α) (s : State)
  /-- It has failed; the exception is on top of the stack. -/
  | raised (s : State)
  /-- The machine stops. -/
  | fault (f : Fault)
  /-- It waits for a call. The callee stands below `argc` arguments, or it is `method` and its
  receiver stands there. `resume` is told whether the call returned. -/
  | call (s : State) (method : Option Value) (argc : Nat) (resume : Bool → State → Proc α)

namespace Proc

/-- Goes on with a second action where the first one ends. -/
@[specialize]
def bind {α β : Type} : Proc α → (α → State → Proc β) → Proc β
  | .done a s, f => f a s
  | .raised s, _ => .raised s
  | .fault e, _ => .fault e
  | .call s method argc resume, f => .call s method argc fun ok s => (resume ok s).bind f

/-- Turns failure into the result `false`, and success into `true`. -/
def attempt : Proc Unit → Proc Bool
  | .done () s => .done true s
  | .raised s => .done false s
  | .fault e => .fault e
  | .call s method argc resume => .call s method argc fun ok s => (resume ok s).attempt

end Proc

/-- An action on the state of a machine. -/
def Act (α : Type) : Type := State → Proc α

namespace Act

/-- Ends with a result and changes nothing. -/
@[inline] protected def pure {α : Type} (a : α) : Act α := fun s => .done a s

/-- One action after the other. -/
@[inline] protected def bind {α β : Type} (x : Act α) (f : α → Act β) : Act β :=
  fun s => (x s).bind f

instance : Monad Act where
  pure := Act.pure
  bind := Act.bind

/-- Stops the machine. -/
@[inline] def fault {α : Type} (f : Fault) : Act α := fun _ => .fault f

/-- Fails with the exception on top of the stack. -/
@[inline] def raise {α : Type} : Act α := fun s => .raised s

/-- Reads the state. -/
@[inline] def gets {α : Type} (f : State → α) : Act α := fun s => .done (f s) s

/-- Reads something that must be there. -/
@[inline] def require {α : Type} (f : State → Option α) (e : Fault) : Act α := fun s =>
  match f s with
  | some a => .done a s
  | none => .fault e

/-- Changes the state. -/
@[inline] def modify (f : State → State) : Act Unit := fun s => .done () (f s)

/-- Changes the state and gives a result. -/
@[inline] def modifyGet {α : Type} (f : State → State × α) : Act α := fun s =>
  match f s with
  | (s, a) => .done a s

/-- Runs an action, and says whether it succeeded. -/
@[inline] def attempt (x : Act Unit) : Act Bool := fun s => (x s).attempt

/-- Calls the value below `argc` arguments and waits for the result, which replaces them all. -/
def callSync (argc : Nat) : Act Unit := fun s =>
  .call s none argc fun ok s => if ok then .done () s else .raised s

/-- Calls a method whose receiver stands below `argc` arguments, and waits for the result. -/
def callMethodSync (method : Value) (argc : Nat) : Act Unit := fun s =>
  .call s (some method) argc fun ok s => if ok then .done () s else .raised s

/-! ## The stack -/

/-- Pushes a value. -/
@[inline] def push (v : Value) : Act Unit := modify fun s => s.push v

/-- Pops the top value; an empty stack gives null. -/
@[inline] def pop : Act Value := fun s =>
  let v := s.top
  .done v s.drop

/-- Drops some values from the top. -/
def dropMany : Nat → Act Unit
  | 0 => pure ()
  | n + 1 => do
    modify State.drop
    dropMany n

/-- The value a number of slots below the top. -/
@[inline] def peek (distance : Nat) : Act Value := require (·.peek? distance) .slot

/-- The height of the stack. -/
@[inline] def height : Act Nat := gets (·.stack.size)

/-- The stack index of a number of values from the top. -/
def start (count : Nat) : Act Nat :=
  require (fun s => if count ≤ s.stack.size then some (s.stack.size - count) else none) .slot

/-- The value of a slot by stack index. -/
@[inline] def slotAt (index : Nat) : Act Value := require (·.stack[index]?) .slot

/-- Overwrites a slot by stack index. -/
def setSlotAt (index : Nat) (v : Value) : Act Unit := fun s =>
  if index < s.stack.size then .done () (s.setSlot index v) else .fault .slot

/-- Cuts the stack down to a height. -/
@[inline] def truncate (height : Nat) : Act Unit := modify (·.truncate height)

/-- Replaces some values at the top by one. -/
def replaceTop (count : Nat) (v : Value) : Act Unit := do
  dropMany count
  push v

/-! ## The heap -/

/-- The object behind a handle. -/
@[inline] def object (h : Handle) : Act Object := require (·.heap.get? h) .danglingHandle

/-- Collects before an allocation of so many bytes if the budget asks for it. -/
def reserve (bytes : Nat) (pending : List Handle) : Act Unit := fun s =>
  if s.heap.shouldCollect || s.heap.exceedsLimit bytes then
    let (s, _) := s.collect pending
    if s.heap.exceedsLimit bytes then .fault .heapLimit else .done () s
  else .done () s

/-- Makes an object. -/
def alloc (o : Object) : Act Handle := do
  reserve o.estimatedBytes o.references
  modifyGet fun s =>
    let (heap, h) := s.heap.insert o
    ({ s with heap := heap }, h)

/-- Makes a string that is not interned. -/
def newString (data : ByteArray) : Act Handle := do
  reserve data.size []
  modifyGet fun s =>
    let (heap, h) := s.heap.newString data
    ({ s with heap := heap }, h)

/-- Makes a string of a text and pushes it. -/
def pushText (text : String) : Act Unit := do
  let h ← newString (Text.octets text)
  push (.object h)

/-- The interned string of some octets. -/
def intern (data : ByteArray) : Act Handle := do
  match ← gets fun s => s.heap.findInterned data (Text.fnv1a data) with
  | some h => return h
  | none =>
    reserve data.size []
    modifyGet fun s =>
      let (heap, h) := s.heap.intern data
      ({ s with heap := heap }, h)

/-- The key of a name. -/
def internKey (name : String) : Act Key :=
  modifyGet fun s =>
    let (heap, key) := s.heap.internKey name
    ({ s with heap := heap }, key)

/-- The key of a name the machine looks up. -/
@[inline] def special (name : Special) : Act Key := gets (·.special name)

/-- Runs an action while collection is forbidden. -/
def withoutCollection {α : Type} (x : Act α) : Act α := do
  modify fun s => { s with heap := s.heap.disableCollection }
  let a ← x
  modify fun s => { s with heap := s.heap.enableCollection }
  return a

/-! ## Frames -/

/-- The innermost frame. -/
@[inline] def frame : Act Frame := require (·.frame?) .noFrame

end Act

end ScriptEngine
