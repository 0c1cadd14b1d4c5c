import ScriptEngine.Machine.Action

/-!
# Classes and methods

Every value has a class. A class holds all its methods, inherited ones included, so that finding a
method is one look-up; the superclass link only answers whether a value is an instance of a class.
-/

namespace ScriptEngine

namespace State

/-- The class of a value; `none` for a dangling handle. -/
def classOf? (s : State) : Value → Option Handle
  | .number _ => some (s.coreClass .number)
  | .bool _ => some (s.coreClass .boolean)
  | .null => some (s.coreClass .null)
  | .object h =>
    (s.heap.get? h).map fun
      | .string _ => s.coreClass .string
      | .list _ => s.coreClass .list
      | .tuple _ => s.coreClass .tuple
      | .table _ => s.coreClass .table
      | .function _ | .closure _ _ | .native _ | .boundMethod _ _ => s.coreClass .function
      | .classObject _ => s.coreClass .classes
      | .instanceOf owner _ => owner
      | .module _ _ => s.coreClass .module
      | .stackTrace _ => s.coreClass .stackTrace
      | .generator _ => s.coreClass .generator
      | .upvalue _ => s.coreClass .object

/-- Whether a chain of superclasses reaches a class; `none` if that is not known after `steps`
steps. -/
def chainReaches (s : State) (ancestor : Handle) : Nat → Handle → Option Bool
  | 0, c => if c = ancestor then some true else none
  | steps + 1, c =>
    if c = ancestor then some true
    else
      match (s.class? c).bind (·.superclass) with
      | some parent => s.chainReaches ancestor steps parent
      | none => some false

/-- Whether a class is another one or inherits from it. A chain without repetition has no more
classes than the heap has slots, so that one that is longer never ends: `none` means that the
question is never answered. -/
def isSubclass (s : State) (c ancestor : Handle) : Option Bool :=
  s.chainReaches ancestor (s.heap.cells.size + 1) c

/-- Whether a value is an instance of a class, if that is ever answered. -/
def isInstance (s : State) (v : Value) (c : Handle) : Option Bool :=
  match s.classOf? v with
  | some owner => s.isSubclass owner c
  | none => some false

/-- A method of a class. -/
def method? (s : State) (c : Handle) (name : Key) : Option Value :=
  match s.class? c with
  | some c => c.methods.get? name
  | none => none

/-- The name of a class. -/
def className (s : State) (c : Handle) : String :=
  match s.class? c with
  | some c => s.textOf c.name
  | none => "?"

/-- The name of a value's class. -/
def kindOf (s : State) (v : Value) : String :=
  match s.classOf? v with
  | some c => s.className c
  | none => "?"

/-- Adds a method to a class. -/
def defineMethod (s : State) (owner : Value) (name : Key) (method : Value) : State :=
  match owner with
  | .object h =>
    s.update h fun
      | .classObject c => .classObject { c with methods := c.methods.insert name method }
      | o => o
  | _ => s

end State

namespace Act

/-- The class of a value. -/
def classOf (v : Value) : Act Handle := require (·.classOf? v) .danglingHandle

/-- Whether a value is an instance of a class. The engine follows a chain of superclasses that does
not end for ever. -/
def testClass (v : Value) (c : Handle) : Act Bool := require (·.isInstance v c) .endless

/-- A method of a value's class, if it has one. -/
def findMethod (v : Value) (name : Special) : Act (Option Value) := do
  let c ← classOf v
  gets fun s => s.method? c (s.special name)

/-- A method together with its receiver. Only objects can be bound. -/
def bindMethod (receiver method : Value) : Act Value := do
  match method with
  | .object h => return .object (← alloc (.boundMethod receiver h))
  | _ => return method

end Act

end ScriptEngine
