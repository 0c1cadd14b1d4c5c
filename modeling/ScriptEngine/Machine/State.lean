import ScriptEngine.Bytecode.Chunk
import ScriptEngine.Heap.Collect
import ScriptEngine.Machine.Core
import ScriptEngine.Settings.Basic

/-!
# The state of a machine

A value stack shared by all frames, the frames themselves, the heap, the captured variables that
still live on the stack, and what the host has registered. Operations that can neither fail nor call
scripts are functions on states; they are collected here.
-/

namespace ScriptEngine

open Bytecode

/-- An active call of script code. -/
structure Frame where
  /-- The closure that runs. -/
  closure : Handle
  /-- Its function object. -/
  function : Handle
  /-- Its prototype. -/
  proto : Proto
  /-- Stack index of slot 0, the callee or receiver. -/
  base : Nat
  /-- Offset of the next instruction. -/
  ip : Nat
  /-- Installed handlers, innermost first. -/
  handlers : List Handler
  /-- The generator whose body runs in this frame. -/
  generator : Option Handle
  deriving Inhabited

/-- The source line of the instruction a frame fetched last. -/
def Frame.line? (f : Frame) : Option Nat := f.proto.chunk.lineAt? (f.ip - 1)

/-- What a host function is registered as: module, class for a method, and name. -/
structure NativeName where
  /-- Name of the module. -/
  module : String
  /-- Name of the class. -/
  owner : Option String
  /-- Name of the function. -/
  name : String
  deriving DecidableEq, Repr

/-- The qualified name, as messages show it. -/
def NativeName.text (n : NativeName) : String :=
  match n.owner with
  | some owner => n.module ++ "." ++ owner ++ "." ++ n.name
  | none => n.module ++ "." ++ n.name

/-- The state of a machine. -/
structure State where
  /-- The value stack, bottom first. -/
  stack : Array Value
  /-- Active frames, outermost first. -/
  frames : Array Frame
  /-- The heap. -/
  heap : Heap
  /-- Upvalues that still refer to the stack. -/
  openUpvalues : List Handle
  /-- Loaded modules by name. -/
  modules : NameTable
  /-- Where the core module is. -/
  core : Core
  /-- Stack index of slot 0 as host-side code counts slots. -/
  apiBase : Nat
  /-- Registered host functions. -/
  natives : List (NativeName × HostFunction)
  /-- Modules that can be imported. -/
  importable : List (String × Bytecode.Module)
  /-- Whether the host asked for an interrupt. -/
  interrupt : Bool
  /-- Nesting of script calls made by host-side code. -/
  reentrant : Nat
  /-- The settings. -/
  settings : Settings
  /-- Printed lines, first line first. -/
  output : Array String
  deriving Inhabited

namespace State

/-- A machine that has run nothing, with a core module on its heap. -/
def withCore (settings : Settings) (heap : Heap) (core : Core) : State :=
  let (heap, name) := heap.internKey Core.moduleName
  { stack := #[]
    frames := #[]
    heap := heap
    openUpvalues := []
    modules := NameTable.empty.insert name (.object core.module)
    core := core
    apiBase := 0
    natives := []
    importable := []
    interrupt := false
    reentrant := 0
    settings := settings
    output := #[] }

/-- A machine that has run nothing. -/
def create (settings : Settings) : State :=
  let installed := Core.install
    (Heap.create settings.firstGcThreshold settings.heapGrowRate settings.maxHeapBytes)
  withCore settings installed.1 installed.2

/-- Registers a host function. A later registration under the same name wins. -/
def register (s : State) (name : NativeName) (f : HostFunction) : State :=
  { s with natives := (name, f) :: s.natives }

/-- The key of a name the machine looks up. -/
def special (s : State) (name : Special) : Key := s.core.key name

/-- The object of a core class. -/
def coreClass (s : State) (c : CoreClass) : Handle := s.core.classHandle c

/-! ## The stack -/

/-- Pushes a value. -/
def push (s : State) (v : Value) : State := { s with stack := s.stack.push v }

/-- Drops the top value, if there is one. -/
def drop (s : State) : State := { s with stack := s.stack.pop }

/-- The value a number of slots below the top. -/
def peek? (s : State) (distance : Nat) : Option Value :=
  if distance < s.stack.size then s.stack[s.stack.size - 1 - distance]? else none

/-- The top value, null on an empty stack. -/
def top (s : State) : Value := s.stack.back?.getD .null

/-- Cuts the stack down to a height. -/
def truncate (s : State) (height : Nat) : State := { s with stack := s.stack.shrink height }

/-- Overwrites a slot. -/
def setSlot (s : State) (index : Nat) (v : Value) : State :=
  { s with stack := s.stack.setIfInBounds index v }

/-- The stack from a slot upward. -/
def slotsFrom (s : State) (start : Nat) : Array Value := s.stack.extract start s.stack.size

/-! ## Frames -/

/-- The innermost frame. -/
def frame? (s : State) : Option Frame := s.frames.back?

/-- Changes the innermost frame. -/
def modifyFrame (s : State) (f : Frame → Frame) : State :=
  { s with frames := s.frames.modify (s.frames.size - 1) f }

/-- Drops the innermost frame. -/
def dropFrame (s : State) : State := { s with frames := s.frames.pop }

/-- Sets the offset of the next instruction. -/
def jumpTo (s : State) (ip : Nat) : State := s.modifyFrame fun f => { f with ip := ip }

/-! ## The heap -/

/-- Changes an object in place and takes its size again. -/
def update (s : State) (h : Handle) (f : Object → Object) : State :=
  { s with heap := (s.heap.update h f).resize h }

/-- Every handle the machine holds outside the heap. -/
def roots (s : State) : List Handle :=
  Object.handlesOf s.stack.toList ++
    s.frames.toList.flatMap (fun f => f.closure :: f.function :: f.generator.toList) ++
    s.openUpvalues ++ Object.tableHandles s.modules ++
    s.core.module :: (s.core.classes.toList ++ s.core.specials.toList.map (·.handle))

/-- Collects garbage unless that is forbidden, keeping what `pending` refers to as well. -/
def collect (s : State) (pending : List Handle) : State × Collection :=
  if s.heap.collectionEnabled then
    let roots := s.roots ++ pending
    let (heap, collection) := s.heap.collect roots
    ({ s with heap := heap }, collection)
  else (s, ⟨0, 0⟩)

/-! ## Captured variables -/

/-- The slot an upvalue refers to. -/
def openSlot? (heap : Heap) (h : Handle) : Option Nat :=
  match heap.get? h with
  | some (.upvalue (.opened slot)) => some slot
  | _ => none

/-- Whether an upvalue refers to a slot at or above a height. -/
def isOpenFrom (heap : Heap) (height : Nat) (h : Handle) : Bool :=
  (openSlot? heap h).any fun slot => decide (height ≤ slot)

/-- Moves the value of an upvalue's slot into the upvalue. -/
def closeUpvalue (stack : Array Value) (heap : Heap) (h : Handle) : Heap :=
  match openSlot? heap h with
  | some slot => heap.update h fun _ => .upvalue (.closed (stack.getD slot .null))
  | none => heap

/-- Closes every upvalue that refers to a slot at or above a height. -/
def closeUpvalues (s : State) (height : Nat) : State :=
  match s.openUpvalues with
  | [] => s
  | _ =>
    let (closing, remaining) := s.openUpvalues.partition (isOpenFrom s.heap height)
    { s with
      heap := closing.foldl (closeUpvalue s.stack) s.heap
      openUpvalues := remaining }

/-! ## Names -/

/-- The text of a string object. -/
def textOf (s : State) (h : Handle) : String :=
  match s.heap.string? h with
  | some str => Text.lossy str.data
  | none => ""

/-- The string a value is. -/
def string? (s : State) (v : Value) : Option StringObject :=
  match v with
  | .object h => s.heap.string? h
  | _ => none

/-- The name and globals of a module. -/
def module? (s : State) (h : Handle) : Option (Handle × NameTable) :=
  match s.heap.get? h with
  | some (.module name globals) => some (name, globals)
  | _ => none

/-- The name of a module. -/
def moduleName (s : State) (h : Handle) : String :=
  match s.module? h with
  | some (name, _) => s.textOf name
  | none => ""

/-- A global of a module. -/
def global? (s : State) (module : Handle) (key : Key) : Option Value :=
  match s.module? module with
  | some (_, globals) => globals.get? key
  | none => none

/-- Sets a global of a module. -/
def setGlobal (s : State) (module : Handle) (key : Key) (v : Value) : State :=
  s.update module fun
    | .module name globals => .module name (globals.insert key v)
    | o => o

/-- The loaded module of a name. -/
def loadedModule? (s : State) (name : Key) : Option Handle :=
  (s.modules.get? name).bind Value.handle?

/-- The function object behind a handle. -/
def function? (s : State) (h : Handle) : Option FunctionObject :=
  match s.heap.get? h with
  | some (.function f) => some f
  | _ => none

/-- The class behind a handle. -/
def class? (s : State) (h : Handle) : Option ClassObject :=
  match s.heap.get? h with
  | some (.classObject c) => some c
  | _ => none

/-- The generator behind a handle. -/
def generator? (s : State) (h : Handle) : Option GeneratorObject :=
  match s.heap.get? h with
  | some (.generator g) => some g
  | _ => none

/-- The items of a list. -/
def list? (s : State) (v : Value) : Option (Array Value) :=
  match v with
  | .object h =>
    match s.heap.get? h with
    | some (.list items) => some items
    | _ => none
  | _ => none

/-- The items of a tuple. -/
def tuple? (s : State) (v : Value) : Option (Array Value) :=
  match v with
  | .object h =>
    match s.heap.get? h with
    | some (.tuple items) => some items
    | _ => none
  | _ => none

/-- The table a value is. -/
def table? (s : State) (v : Value) : Option ValueTable :=
  match v with
  | .object h =>
    match s.heap.get? h with
    | some (.table t) => some t
    | _ => none
  | _ => none

/-- The class and fields of an instance. -/
def instanceOf? (s : State) (v : Value) : Option (Handle × NameTable) :=
  match v with
  | .object h =>
    match s.heap.get? h with
    | some (.instanceOf owner fields) => some (owner, fields)
    | _ => none
  | _ => none

/-- The module whose code runs, or the core module when none does. -/
def currentModule (s : State) : Handle :=
  match s.frame? with
  | some f => ((s.function? f.function).map (·.module)).getD s.core.module
  | none => s.core.module

/-- Appends a value to a list. -/
def appendTo (s : State) (list : Handle) (v : Value) : State :=
  s.update list fun
    | .list items => .list (items.push v)
    | o => o

/-- Sets a field of an instance. -/
def setInstanceField (s : State) (h : Handle) (key : Key) (v : Value) : State :=
  s.update h fun
    | .instanceOf owner fields => .instanceOf owner (fields.insert key v)
    | o => o

end State

end ScriptEngine
