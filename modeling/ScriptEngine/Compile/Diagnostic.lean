import ScriptEngine.Source.Position

/-!
# Compile errors

Everything that makes a program unacceptable, with the one text of each. A diagnostic is a cause at
a position; a compile error adds the file.
-/

namespace ScriptEngine.Compile

open Source

/-- Why a program is refused. -/
inductive Cause where
  | jumpTooLong
  | loopTooLong
  | tooManyConstants
  | tooManyLocals
  | tooManyUpvalues
  | alreadyDeclared (name : String)
  | ownInitializer (name : String)
  | yieldInConstructor
  | yieldOutside
  | tooManyNames
  | tooManyParameters
  | tooManyArguments
  | tooManyElements
  | tooManyEntries
  | defaultNotLiteral
  | parameterAfterDefault (name : String)
  | nativePattern (function parameter : String)
  | spreadMisplaced
  | invalidTarget
  | receiverOutside
  | superOutside
  | superIncomplete
  | breakOutside
  | continueOutside
  | returnOutside
  | constructorReturn
  /-- A counter of instructions overflows, which stops the engine. -/
  | overflow
  deriving DecidableEq, Repr

/-- The most arguments, parameters and unpacked names, since counts have eight bits. -/
def maxArguments : Nat := 255

/-- The text of a cause. -/
def Cause.message : Cause → String
  | .jumpTooLong => "Too much code to jump over"
  | .loopTooLong => "Loop body too large"
  | .tooManyConstants => "Too many constants in function"
  | .tooManyLocals => "Too many local variables in function"
  | .tooManyUpvalues => "Too many captured variables in function"
  | .alreadyDeclared name => "Variable `" ++ name ++ "` already declared in this scope"
  | .ownInitializer name =>
    "Cannot read local variable `" ++ name ++ "` in its own initializer"
  | .yieldInConstructor => "Cannot use yield in constructor"
  | .yieldOutside => "Cannot use `yield` outside of a function"
  | .tooManyNames => "Too many names to unpack"
  | .tooManyParameters => "Too many parameters (max " ++ toString maxArguments ++ ")"
  | .tooManyArguments => "Too many arguments (max " ++ toString maxArguments ++ ")"
  | .tooManyElements => "Too many elements in collection literal"
  | .tooManyEntries => "Too many entries in table literal"
  | .defaultNotLiteral => "Default argument must be a constant literal"
  | .parameterAfterDefault name => "Parameter `" ++ name ++ "` without default follows a default"
  | .nativePattern function parameter =>
    "Native `" ++ function ++ "` cannot unpack parameter `" ++ parameter ++ "`"
  | .spreadMisplaced => "Spread is only allowed in call arguments and list or tuple literals"
  | .invalidTarget => "Invalid assignment target"
  | .receiverOutside => "Cannot use `this` outside of a method"
  | .superOutside => "Cannot use `super` outside of a method"
  | .superIncomplete => "Expected a method call or access after `super`"
  | .breakOutside => "Cannot use `break` outside of a loop"
  | .continueOutside => "Cannot use `continue` outside of a loop"
  | .returnOutside => "Cannot use `return` outside of a function"
  | .constructorReturn => "Cannot return a value from a constructor"
  | .overflow => "attempt to add with overflow"

/-- A cause at a position. -/
structure Diagnostic where
  /-- Why. -/
  cause : Cause
  /-- Where. -/
  pos : Position
  deriving DecidableEq, Repr

/-- A refused program. -/
structure CompileError where
  /-- The file of the program. -/
  file : String
  /-- Where and why. -/
  diagnostic : Diagnostic
  deriving DecidableEq, Repr

/-- `file:line:column: text`. -/
def locatedMessage (file : String) (pos : Position) (text : String) : String :=
  file ++ ":" ++ pos.text ++ ": " ++ text

/-- The message of a refused program. -/
def CompileError.message (e : CompileError) : String :=
  locatedMessage e.file e.diagnostic.pos e.diagnostic.cause.message

end ScriptEngine.Compile
