import ScriptEngine.Bytecode.Archive
import ScriptEngine.Compile.Program
import ScriptEngine.Machine.Run

/-!
# Evaluating modules

How a host runs code: a module is checked, loaded under a name and its top-level code is called. The
stack is left as it was, and an exception nobody catches is reported.
-/

namespace ScriptEngine

open Bytecode

/-- The part of the engine that a host's error message names. -/
inductive Stage where
  | compile | run | check | archive | settings
  deriving DecidableEq, Repr

/-- What messages of a stage begin with. -/
def Stage.label : Stage → String
  | .compile => "Compile error: "
  | .run => "Runtime error: "
  | .check => "Internal error: "
  | .archive => "Bytecode error: "
  | .settings => "Config error: "

/-- Why an evaluation failed. -/
inductive EvalError where
  /-- The program is not valid. -/
  | compile (e : Compile.CompileError)
  /-- The code breaks the machine's assumptions. -/
  | malformed (m : Malformed)
  /-- The stored module cannot be read. -/
  | archive (e : ArchiveError)
  /-- An exception was not caught. -/
  | uncaught (e : RuntimeError)

/-- The message about a failed evaluation. -/
def EvalError.message : EvalError → String
  | .compile e => Stage.compile.label ++ e.message
  | .malformed m => Stage.check.label ++ m.message
  | .archive e => Stage.archive.label ++ e.message
  | .uncaught e => Stage.run.label ++ e.text

namespace Act

/-- Runs a module under a name. -/
def evalModule (name : String) (m : Bytecode.Module) : Act (Except EvalError Unit) := do
  match m.main.verify with
  | .error e => return .error (.malformed e)
  | .ok () =>
    let key ← internKey name
    let closure ← load key m
    let height ← height
    push (.object closure)
    if ← attempt (callSync 0) then
      truncate height
      return .ok ()
    else
      let e ← gets fun s => s.report s.top
      truncate height
      return .error (.uncaught e)

/-- Compiles a program and runs it as the main module. A program whose instructions cannot be counted
stops the machine. -/
def evalProgram (p : Source.Program) : Act (Except EvalError Unit) :=
  match Compile.compile p with
  | .error e =>
    if e.diagnostic.cause = .overflow then fault .overflow else pure (.error (.compile e))
  | .ok m => evalModule mainModule m

/-- Runs a stored module under a name. -/
def evalArchive (name : String) (octets : List UInt8) : Act (Except EvalError Unit) :=
  match Bytecode.Module.load octets with
  | .error e => pure (.error (.archive e))
  | .ok m => evalModule name m

end Act

/-- A machine with settings, if they are accepted. -/
def State.ofSettings (settings : Settings) : Except Settings.Invalid State :=
  match settings.invalid? with
  | some e => .error e
  | none => .ok (.create settings)

end ScriptEngine
