import ScriptEngine.Bytecode.Proto
import ScriptEngine.Heap.NameTable
import ScriptEngine.Heap.NativeFunction
import ScriptEngine.Heap.ValueTable

/-!
# Heap objects

The kinds of objects a heap holds, the handles each keeps alive, and an estimate of its size that
the collector's budget is charged with.
-/

namespace ScriptEngine

open Bytecode

/-- A string: its octets, their hash, and whether it is the one interned string of its content. -/
structure StringObject where
  /-- The octets. -/
  data : ByteArray
  /-- Hash of the octets. -/
  hash : UInt32
  /-- Whether it is in the set of interned strings. -/
  interned : Bool

/-- A prototype made ready for one module. -/
structure FunctionObject where
  /-- The prototype. -/
  proto : Proto
  /-- The constants of the prototype as values. -/
  constants : Array Value
  /-- The defaults of the last parameters. -/
  defaults : Array Value
  /-- The module whose globals the function sees. -/
  module : Handle

/-- A host-side function with its signature. -/
structure NativeObject where
  /-- Its name in messages. -/
  name : String
  /-- Number of declared parameters. -/
  arity : UInt8
  /-- The defaults of the last parameters. -/
  defaults : Array Value
  /-- Whether further arguments are packed into a tuple. -/
  vararg : Bool
  /-- The module it was declared in. -/
  module : Handle
  /-- What is run. -/
  function : NativeFunction

/-- A class. Methods of superclasses are copied into it when it is declared. -/
structure ClassObject where
  /-- The string that names it. -/
  name : Handle
  /-- The class it extends. -/
  superclass : Option Handle
  /-- Methods, inherited ones included. -/
  methods : NameTable
  /-- Classes of built-in values can be neither instantiated nor extended by scripts. -/
  builtin : Bool

/-- Where an exception handler continues. -/
inductive HandlerKind where
  | except | ensure
  deriving DecidableEq, Repr

/-- An installed exception handler. -/
structure Handler where
  /-- What it serves. -/
  kind : HandlerKind
  /-- Offset of its code. -/
  address : Nat
  /-- Stack height when it was installed. -/
  height : Nat
  deriving DecidableEq, Repr

/-- What a generator is doing. -/
inductive GeneratorState where
  /-- Made, but its body has not run. -/
  | started
  /-- Stopped at a `yield`. -/
  | suspended
  | running
  | done
  deriving DecidableEq, Repr

/-- A call that can be suspended. While it is, it owns the slots of its frame, and its handlers have
heights relative to the frame. -/
structure GeneratorObject where
  /-- The closure whose body it runs. -/
  closure : Handle
  /-- The closure's function. -/
  function : Handle
  /-- What it is doing. -/
  state : GeneratorState
  /-- Offset of the next instruction. -/
  ip : Nat
  /-- Slots of its frame. -/
  stack : Array Value
  /-- Its handlers, innermost first. -/
  handlers : List Handler
  /-- The value yielded last. -/
  lastYield : Value

/-- One frame of a captured stack trace. -/
structure TraceRecord where
  /-- Source line, if known. -/
  line : Option Nat
  /-- Name of the module. -/
  module : String
  /-- Name of the function. -/
  function : String
  deriving DecidableEq, Repr

/-- The text of a trace record. -/
def TraceRecord.text (r : TraceRecord) : String :=
  let line :=
    match r.line with
    | some n => toString n
    | none => "?"
  "[line " ++ line ++ "] module " ++ r.module ++ " in " ++ r.function

/-- An object of the heap. -/
inductive Object where
  | string (s : StringObject)
  | list (items : Array Value)
  | tuple (items : Array Value)
  | table (t : ValueTable)
  | function (f : FunctionObject)
  | closure (function : Handle) (upvalues : Array Handle)
  | native (n : NativeObject)
  | classObject (c : ClassObject)
  | instanceOf (owner : Handle) (fields : NameTable)
  | boundMethod (receiver : Value) (method : Handle)
  | module (name : Handle) (globals : NameTable)
  | stackTrace (records : List TraceRecord)
  | generator (g : GeneratorObject)
  | upvalue (u : Upvalue)
  deriving Inhabited

namespace Object

/-- The name of an object's kind. -/
def kindName : Object → String
  | .string _ => "String"
  | .list _ => "List"
  | .tuple _ => "Tuple"
  | .table _ => "Table"
  | .function _ => "Function"
  | .closure _ _ => "Closure"
  | .native _ => "Native"
  | .classObject _ => "Class"
  | .instanceOf _ _ => "Instance"
  | .boundMethod _ _ => "BoundMethod"
  | .module _ _ => "Module"
  | .stackTrace _ => "StackTrace"
  | .generator _ => "Generator"
  | .upvalue _ => "Upvalue"

/-- The handles among some values. -/
def handlesOf (values : List Value) : List Handle := values.filterMap Value.handle?

/-- The handles a table of names keeps alive: each key, then its value. -/
def tableHandles (t : NameTable) : List Handle :=
  t.toList.flatMap fun (key, value) => key.handle :: value.handle?.toList

/-- The handles an object keeps alive. -/
def references : Object → List Handle
  | .string _ | .stackTrace _ => []
  | .list items | .tuple items => handlesOf items.toList
  | .table t => t.toList.flatMap fun e => e.key.handle?.toList ++ e.value.handle?.toList
  | .function f => handlesOf f.constants.toList ++ handlesOf f.defaults.toList ++ [f.module]
  | .closure f upvalues => f :: upvalues.toList
  | .native n => handlesOf n.defaults.toList ++ [n.module]
  | .classObject c => c.name :: (c.superclass.toList ++ tableHandles c.methods)
  | .instanceOf c fields => c :: tableHandles fields
  | .boundMethod receiver method => receiver.handle?.toList ++ [method]
  | .module name globals => name :: tableHandles globals
  | .generator g =>
    g.closure :: g.function :: (handlesOf g.stack.toList ++ g.lastYield.handle?.toList)
  | .upvalue (.closed v) => v.handle?.toList
  | .upvalue (.opened _) => []

/-- Bytes an arena slot is charged. -/
def slotBytes : Nat := 112

/-- Bytes a value is charged. -/
def valueBytes : Nat := 16

/-- Estimated size of an object in bytes. -/
def estimatedBytes (o : Object) : Nat :=
  slotBytes + match o with
    | .string s => s.data.size
    | .list items | .tuple items => items.size * valueBytes
    | .table t => t.entries.size * 40
    | .function f => (f.constants.size + f.defaults.size) * valueBytes
    | .closure _ upvalues => upvalues.size * 4
    | .native n => n.defaults.size * valueBytes + n.name.utf8ByteSize
    | .classObject c => c.methods.capacity * 2 * valueBytes
    | .instanceOf _ fields => fields.capacity * 2 * valueBytes
    | .module _ globals => globals.capacity * 2 * valueBytes
    | .stackTrace records => records.length * 64
    | .generator g => g.stack.size * valueBytes + g.handlers.length * 24
    | .boundMethod _ _ | .upvalue _ => 0

end Object

end ScriptEngine
