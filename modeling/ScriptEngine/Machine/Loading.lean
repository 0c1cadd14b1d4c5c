import ScriptEngine.Bytecode.Verify
import ScriptEngine.Machine.Calls

/-!
# Loading modules

A prototype becomes a function object of one module when its constants become values, strings being
interned and nested functions loaded in turn. A module is registered under its name before its
top-level code runs, with a copy of the core module's globals.
-/

namespace ScriptEngine.Act

open Bytecode

mutual

/-- The value of a constant. A native declaration has none until its instruction runs. -/
def constantValue (module : Handle) : Constant → Act Value
  | .number n => pure (.number n)
  | .bool b => pure (.bool b)
  | .null => pure .null
  | .string t => do return .object (← intern (Text.octets t))
  | .function p => do return .object (← materialize module p)
  | .native _ => pure .null

/-- The function object of a prototype. -/
def materialize (module : Handle) : Proto → Act Handle
  | ⟨name, arity, defaults, vararg, upvalueCount, ⟨code, constants, lines⟩⟩ => do
    let pool ← constantValues module constants
    let values ← constantValues module defaults
    alloc (.function
      { proto := ⟨name, arity, defaults, vararg, upvalueCount, ⟨code, constants, lines⟩⟩
        constants := pool
        defaults := values
        module := module })

/-- The values of a pool of constants. -/
def constantValues (module : Handle) : Array Constant → Act (Array Value)
  | ⟨constants⟩ => constantList module #[] constants

/-- Appends the values of some constants. -/
def constantList (module : Handle) (values : Array Value) : List Constant → Act (Array Value)
  | [] => pure values
  | c :: rest => do
    let v ← constantValue module c
    constantList module (values.push v) rest

end

/-- The module of a name, registered if it is new. -/
def moduleNamed (name : Key) : Act Handle := do
  match ← gets (·.loadedModule? name) with
  | some h => return h
  | none =>
    let globals ← gets fun s => ((s.module? s.core.module).map (·.2)).getD .empty
    let h ← alloc (.module name.handle globals)
    modify fun s => { s with modules := s.modules.insert name (.object h) }
    return h

/-- Registers a module and gives the closure of its top-level code. -/
def load (name : Key) (m : Bytecode.Module) : Act Handle :=
  withoutCollection do
    let module ← moduleNamed name
    let function ← materialize module m.main
    alloc (.closure function #[])

/-- The loaded module of a name. -/
def loadedModule (name : Key) : Act Handle := require (·.loadedModule? name) .module

/-- The module cannot be imported. -/
def cannotLoad {α : Type} (name reason : String) : Act α :=
  fail .importException ("Cannot load module `" ++ name ++ "`" ++ reason)

/-- Loads a module by name if it is not loaded and calls its top-level code. Afterwards the stack
has the module if it is to be bound, and the value of the call. -/
def importModule (name : Key) (bind : Bool) : Act Control := do
  match ← gets (·.modules.get? name) with
  | some v =>
    if bind then push v else pure ()
    push .null
    return .next
  | none =>
    let text ← gets (·.textOf name.handle)
    match ← gets (·.importable.lookup text) with
    | none => cannotLoad text ""
    | some m =>
      match m.main.verify with
      | .error e => cannotLoad text (": " ++ e.message)
      | .ok () =>
        let closure ← load name m
        if bind then push (.object (← loadedModule name)) else pure ()
        push (.object closure)
        return .call 0

/-- The host function that a native declaration names, as an object. `owner` is set for methods. -/
def resolveNative (declaration : NativeProto) (owner : Option Handle) : Act Handle := do
  let module ← gets (·.currentModule)
  let name ← gets fun s =>
    { module := s.moduleName module
      owner := owner.map s.className
      name := declaration.name : NativeName }
  match ← gets (·.natives.lookup name) with
  | none => fail .exception ("Cannot resolve native `" ++ name.text ++ "`")
  | some f =>
    let defaults ← withoutCollection (constantValues module declaration.defaults)
    alloc (.native
      { name := declaration.name
        arity := declaration.arity
        defaults := defaults
        vararg := declaration.vararg
        module := module
        function := .host f })

end ScriptEngine.Act
