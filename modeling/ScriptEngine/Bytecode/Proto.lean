import ScriptEngine.Bytecode.Lines
import ScriptEngine.Bytecode.Op
import ScriptEngine.Number.Basic

/-!
# Prototypes

Compiled code before it is loaded: a prototype holds the signature of a function, its instructions,
its constant pool and its line table. Nested functions are constants of the function they stand in.
Prototypes refer to no heap, so they can be stored and shared.
-/

namespace ScriptEngine.Bytecode

mutual

/-- An entry of a constant pool. -/
inductive Constant where
  | number (value : Number)
  | string (value : String)
  | bool (value : Bool)
  | null
  /-- A nested function. -/
  | function (proto : Proto)
  /-- A declaration of a host function. -/
  | native (proto : NativeProto)

/-- The signature of a host function. -/
structure NativeProto where
  /-- The name under which the host registers it. -/
  name : String
  /-- Number of declared parameters. -/
  arity : UInt8
  /-- Defaults of the last parameters. -/
  defaults : Array Constant
  /-- Whether further arguments are packed into a tuple. -/
  vararg : Bool

/-- Code: instructions, the constants they refer to, and the lines they come from. -/
structure Chunk where
  /-- Instructions. -/
  code : Array Op
  /-- Constant pool. -/
  constants : Array Constant
  /-- Source lines, parallel to the instructions. -/
  lines : LineTable

/-- A compiled function or a module's top-level code. -/
structure Proto where
  /-- The function's name, empty for top-level code. -/
  name : String
  /-- Number of declared parameters, those with defaults included. -/
  arity : UInt8
  /-- Defaults of the last parameters. -/
  defaults : Array Constant
  /-- Whether further arguments are packed into a tuple after the parameters. -/
  vararg : Bool
  /-- Number of variables a closure of this function captures. -/
  upvalueCount : UInt16
  /-- The code. -/
  chunk : Chunk

end

instance : Inhabited Constant := ⟨.null⟩

/-- No code. -/
def Chunk.empty : Chunk := ⟨#[], #[], .empty⟩

instance : Inhabited Chunk := ⟨.empty⟩

instance : Inhabited Proto :=
  ⟨{ name := "", arity := 0, defaults := #[], vararg := false, upvalueCount := 0, chunk := .empty }⟩

/-- A module ready to be loaded. -/
structure Module where
  /-- The source file. -/
  file : String
  /-- Top-level code. -/
  main : Proto
  deriving Inhabited

/-- The name shown in listings and stack traces. -/
def Proto.displayName (p : Proto) : String := if p.name.isEmpty then "<main>" else p.name

mutual

/-- Numeric equality of constants: structural, but a NaN differs from itself and the zeros agree. -/
def Constant.equals : Constant → Constant → Bool
  | .number a, .number b => a.equals b
  | .string a, .string b => a == b
  | .bool a, .bool b => a == b
  | .null, .null => true
  | .function a, .function b => a.equals b
  | .native a, .native b => a.equals b
  | _, _ => false

/-- Equality of native signatures up to numeric equality of defaults. -/
def NativeProto.equals : NativeProto → NativeProto → Bool
  | ⟨n, a, d, v⟩, q => n == q.name && a == q.arity && equalConstants d q.defaults && v == q.vararg

/-- Equality of prototypes up to numeric equality of constants. -/
def Proto.equals : Proto → Proto → Bool
  | ⟨n, a, d, v, u, chunk⟩, q =>
    n == q.name && a == q.arity && equalConstants d q.defaults && v == q.vararg &&
      u == q.upvalueCount && chunk.equals q.chunk

/-- Equality of chunks up to numeric equality of constants. -/
def Chunk.equals : Chunk → Chunk → Bool
  | ⟨code, constants, lines⟩, q =>
    code == q.code && equalConstants constants q.constants && lines == q.lines

/-- Pointwise equality of constant pools. -/
def equalConstants : Array Constant → Array Constant → Bool
  | ⟨a⟩, b => equalConstantLists a b.toList

/-- Pointwise equality of lists of constants. -/
def equalConstantLists : List Constant → List Constant → Bool
  | [], [] => true
  | a :: as, b :: bs => a.equals b && equalConstantLists as bs
  | _, _ => false

end

/-- Equality of modules up to numeric equality of constants. -/
def Module.equals (a b : Module) : Bool := a.file == b.file && a.main.equals b.main

end ScriptEngine.Bytecode
