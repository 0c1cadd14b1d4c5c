import ScriptEngine.Machine.Exceptions

/-!
# What the machine does next

An instruction ends by saying how the machine goes on. A call is not made inside the instruction:
the instruction names the callee, and entering it is a step of its own.
-/

namespace ScriptEngine

/-- What the machine does next. -/
inductive Control where
  /-- Execute the next instruction. -/
  | next
  /-- Call the value below `argc` arguments, or `method` with its receiver there. -/
  | enter (method : Option Value) (argc : Nat)
  /-- Append the next element of `iterable` to the list two slots below the iteration state. -/
  | spread (iterable iter next : Value)
  /-- Refuse a call that would nest too deeply. -/
  | refuse
  /-- Hand the result, or the exception, to whoever waits for the call. -/
  | leave (returned : Bool)

namespace Control

/-- Call a method with its receiver below the arguments. -/
def invoke (method : Value) (argc : Nat) : Control := .enter (some method) argc

/-- Call the value below the arguments. -/
def call (argc : Nat) : Control := .enter none argc

end Control

end ScriptEngine
