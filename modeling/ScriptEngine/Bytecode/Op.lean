/-!
# Instructions

The instruction set of the stack machine. A jump counts instructions from the one after the jump:
forward for `jump`, `jumpIfFalse`, `jumpIfTrue`, `setupExcept`, `setupEnsure` and `forNext`,
backward for `loop`. Names and constants are indices into the constant pool of the chunk. Calls and
invocations with at most ten arguments have a short form of their own, and the long form with a
small count is a different instruction.
-/

namespace ScriptEngine.Bytecode

/-- Where a closure finds a captured variable when it is made. -/
structure Capture where
  /-- A slot of the enclosing frame, as opposed to a capture of the enclosing closure. -/
  isLocal : Bool
  /-- Index of the slot or of the capture. -/
  index : UInt16
  deriving DecidableEq, Inhabited, Repr

/-- One instruction. -/
inductive Op where
  /-- Push a constant. -/
  | constant (index : UInt16)
  | null | true | false
  | pop | dup
  /-- Duplicate the top two values, keeping their order. -/
  | dup2
  | getLocal (slot : UInt16) | setLocal (slot : UInt16)
  | getGlobal (name : UInt16) | setGlobal (name : UInt16)
  /-- Pop the top value into a global. -/
  | defineGlobal (name : UInt16)
  | getUpvalue (index : UInt16) | setUpvalue (index : UInt16)
  /-- Close the upvalue on the top slot, then pop it. -/
  | closeUpvalue
  /-- `[object] → [value]` -/
  | getField (name : UInt16)
  /-- `[object, value] → [value]` -/
  | setField (name : UInt16)
  /-- `[object, index] → [value]` -/
  | getSubscript
  /-- `[object, index, value] → [value]` -/
  | setSubscript
  | add | subtract | multiply | divide | modulo | power | negate
  | bitAnd | bitOr | xor | shiftLeft | shiftRight | invert
  | equal | less | lessEqual | greater | greaterEqual
  /-- `[value, class] → [bool]` -/
  | is
  | not
  | jump (distance : UInt16)
  /-- Pop the condition and jump if it is falsy. -/
  | jumpIfFalse (distance : UInt16)
  /-- Pop the condition and jump if it is truthy. -/
  | jumpIfTrue (distance : UInt16)
  | loop (distance : UInt16)
  /-- Call with at most ten arguments. -/
  | callShort (argc : Fin 11)
  /-- Call with any number of arguments. -/
  | callLong (argc : UInt8)
  /-- Invoke a method with at most ten arguments. -/
  | invokeShort (argc : Fin 11) (name : UInt16)
  /-- Invoke a method with any number of arguments. -/
  | invokeLong (argc : UInt8) (name : UInt16)
  /-- `[callee, list]`: call with the elements of the list. -/
  | callUnpack
  /-- `[receiver, list]`: invoke with the elements of the list. -/
  | invokeUnpack (name : UInt16)
  /-- `[this, arguments.., superclass]`: call a superclass method. -/
  | superCall (argc : UInt8) (name : UInt16)
  /-- `[this, list, superclass]` -/
  | superUnpack (name : UInt16)
  /-- `[this, superclass] → [bound method]` -/
  | superBind (name : UInt16)
  | return
  /-- Make a closure of a function constant. -/
  | closure (function : UInt16) (captures : List Capture)
  /-- Push the host function a native declaration names. -/
  | native (declaration : UInt16)
  | newList (count : UInt16) | newTuple (count : UInt16) | newTable (count : UInt16)
  /-- Replace a list or tuple by its first elements. -/
  | unpack (count : UInt8)
  /-- `[list, value] → [list]` -/
  | appendList
  /-- `[list, iterable] → [list]` -/
  | extendList
  /-- `[list] → [tuple]` -/
  | listToTuple
  /-- Push the root class. -/
  | getObject
  | newClass (name : UInt16)
  /-- `[superclass, class] → [superclass, class]`, inheriting methods. -/
  | subclass
  /-- `[class, method] → [class]` -/
  | defMethod (name : UInt16)
  /-- `[class] → [class]`, binding a host method. -/
  | nativeMethod (declaration : UInt16)
  | setupExcept (distance : UInt16) | setupEnsure (distance : UInt16)
  | popHandler
  /-- Finish a handler: raise again, resume a return, or fall through, as the cause says. -/
  | endHandler
  | raise
  /-- Look up the iteration methods of the iterated value. -/
  | forPrep
  /-- Ask for the next iteration state. -/
  | forIter
  /-- Store the iteration state; leave the loop if it is falsy, else ask for the element. -/
  | forNext (distance : UInt16)
  /-- Turn the running frame into a new generator and return it. -/
  | generator
  /-- Suspend the generator, handing the top value to its caller. -/
  | yield
  /-- Mark the running generator as completed. -/
  | generatorClose
  /-- Load a module if needed and push it. -/
  | importModule (name : UInt16)
  /-- Load a module if needed without binding it. -/
  | importFrom (name : UInt16)
  /-- Push a global of a module. -/
  | importName (module name : UInt16)
  /-- Copy every global of a module into the current one. -/
  | importAll (module : UInt16)
  deriving DecidableEq, Inhabited, Repr

/-- There is a short form for no arguments. -/
instance neZero_shortForms : @NeZero Nat Zero.ofOfNat0 11 := ⟨by decide⟩

namespace Op

/-- The call instruction for a number of arguments. -/
def call (argc : UInt8) : Op :=
  if h : argc.toNat < 11 then .callShort ⟨argc.toNat, h⟩ else .callLong argc

/-- The invoke instruction for a number of arguments and a method name. -/
def invoke (argc : UInt8) (name : UInt16) : Op :=
  if h : argc.toNat < 11 then .invokeShort ⟨argc.toNat, h⟩ name else .invokeLong argc name

/-- Argument count of a call instruction. -/
def callCount? : Op → Option Nat
  | .callShort n => some n.val
  | .callLong n => some n.toNat
  | _ => none

/-- Argument count and method name of an invoke instruction. -/
def invokeArgs? : Op → Option (Nat × UInt16)
  | .invokeShort n name => some (n.val, name)
  | .invokeLong n name => some (n.toNat, name)
  | _ => none

/-- The distance of a forward jump. -/
def forwardDistance? : Op → Option UInt16
  | .jump j | .jumpIfFalse j | .jumpIfTrue j | .setupExcept j | .setupEnsure j | .forNext j =>
    some j
  | _ => none

/-- Where a forward jump at `offset` lands. -/
def forwardTarget? (op : Op) (offset : Nat) : Option Nat :=
  op.forwardDistance?.map fun j => offset + 1 + j.toNat

/-- The same forward jump with another distance; `none` for other instructions. -/
def retarget? (op : Op) (distance : UInt16) : Option Op :=
  match op with
  | .jump _ => some (.jump distance)
  | .jumpIfFalse _ => some (.jumpIfFalse distance)
  | .jumpIfTrue _ => some (.jumpIfTrue distance)
  | .setupExcept _ => some (.setupExcept distance)
  | .setupEnsure _ => some (.setupEnsure distance)
  | .forNext _ => some (.forNext distance)
  | _ => none

end Op

end ScriptEngine.Bytecode
