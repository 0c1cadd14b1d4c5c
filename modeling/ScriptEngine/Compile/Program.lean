import ScriptEngine.Compile.Function
import ScriptEngine.Source.Yields

/-!
# Compiling programs

Code generation for expressions and statements, by recursion on the program tree. An expression
leaves its value on the stack and a statement leaves the stack as it was, apart from the locals it
declares. `compile` turns a program into a module.
-/

namespace ScriptEngine.Compile

open Bytecode Source

/-- A collection count that fits an operand. -/
def maxElements : Nat := 65535

/-- The name under which a superclass method is looked up. -/
def superName (ctx : Context) (method : Option String) (pos : Position) : Gen String := do
  match ctx.method with
  | none => fail .superOutside pos
  | some own => return method.getD own

/-- The line of the last statement, or a default for none. -/
def lastLine (body : List Stmt) (otherwise : Nat) : Nat :=
  match body.getLast? with
  | some s => s.pos.line
  | none => otherwise

/-- The name of a function literal's prototype. -/
def literalName (name : String) (line : Nat) : String :=
  if name.isEmpty then "<anon:" ++ toString line ++ ">" else name

/-- Emits `var` declarations around the code of the initial value. -/
def emitDeclare (pos : Position) (names : List String) (initial : Option (Gen Unit)) :
    Gen Unit := do
  let global ← atTopLevel
  if !global then names.forM fun name => updateFunctionM (·.declare name pos)
  match initial with
  | some value =>
    value
    if names.length > 1 then
      if names.length > maxArguments then fail .tooManyNames pos
      emit (.unpack (UInt8.ofNat names.length)) pos.line
  | none => names.forM fun _ => emit .null pos.line
  if global then
    -- unpacked values are stacked in order, the last name on top
    names.reverse.forM fun name => do emit (.defineGlobal (← addName name pos)) pos.line
  else updateFunction (·.markInitialized names.length)

/-- Emits an import. -/
def emitImport (pos : Position) (d : Import) : Gen Unit := do
  let line := pos.line
  let module ← addName d.module pos
  match d.items with
  | .module _ =>
    -- leaves the module and the result of its top-level code
    emit (.importModule module) line
    emit .pop line
    defineVariable d.bindingName pos
  | .names names =>
    emit (.importFrom module) line
    emit .pop line
    names.forM fun name => do
      emit (.importName module (← addName name pos)) line
      defineVariable name pos
  | .all =>
    emit (.importFrom module) line
    emit .pop line
    emit (.importAll module) line

/-- Emits `if` around the code of the condition and the branches. -/
def emitBranch (pos : Position) (condition thenBranch : Gen Unit) (elseBranch : Option (Gen Unit)) :
    Gen Unit := do
  condition
  let toElse ← emitJump (.jumpIfFalse 0) pos.line
  thenBranch
  match elseBranch with
  | some other =>
    let toEnd ← emitJump (.jump 0) pos.line
    patchJump toElse pos
    other
    patchJump toEnd pos
  | none => patchJump toElse pos

/-- Emits `while` around the code of the condition and the body. -/
def emitWhile (ctx : Context) (pos : Position) (condition body : Gen Unit) : Gen Unit := do
  let start ← offset
  beginLoop ctx (some start)
  condition
  let exit ← emitJump (.jumpIfFalse 0) pos.line
  body
  emitLoop start pos
  patchJump exit pos
  endLoop pos

/-- Emits a counting loop. `continue` lands on the step, which comes after the body. -/
def emitFor (ctx : Context) (pos : Position) (initial condition step : Option (Gen Unit))
    (body : Gen Unit) : Gen Unit := do
  beginScope
  initial.forM id
  let start ← offset
  let exit ← condition.mapM fun condition => do
    condition
    emitJump (.jumpIfFalse 0) pos.line
  beginLoop ctx none
  body
  patchContinues pos
  step.forM fun step => do
    step
    emit .pop pos.line
  emitLoop start pos
  exit.forM (patchJump · pos)
  endLoop pos
  endScope pos.line

/-- Emits an iteration. Hidden locals hold the iterated value, the iteration state and the two
iteration methods. -/
def emitForEach (ctx : Context) (pos : Position) (names : List String) (iterable body : Gen Unit) :
    Gen Unit := do
  let line := pos.line
  beginScope
  iterable
  defineLocal ".expr" pos
  emit .null line
  defineLocal ".iter" pos
  emit .forPrep line
  defineLocal ".__iter__" pos
  defineLocal ".__next__" pos
  let start ← offset
  beginLoop ctx (some start)
  emit .forIter line
  let exit ← emitJump (.forNext 0) line
  beginScope
  if names.length > 1 then
    if names.length > maxArguments then fail .tooManyNames pos
    emit (.unpack (UInt8.ofNat names.length)) line
  names.forM fun name => updateFunctionM (·.declare name pos)
  updateFunction (·.markInitialized names.length)
  body
  endScope line
  emitLoop start pos
  patchJump exit pos
  endLoop pos
  endScope line

/-- Emits one except clause: tests the exception against a class, and on a match binds it, runs the
body and clears the cause. Gives the jump out of the clause if another clause follows. -/
def emitClause (pos : Position) (exceptionSlot causeSlot : UInt16) (binder : String)
    (exceptionClass body : Gen Unit) (hasNext : Bool) : Gen (Option Nat) := do
  let line := pos.line
  emit (.getLocal exceptionSlot) line
  exceptionClass
  emit .is line
  let next ← emitJump (.jumpIfFalse 0) line
  beginScope
  emit (.getLocal exceptionSlot) line
  defineLocal binder pos
  body
  emit .null line
  emit (.setLocal causeSlot) line
  emit .pop line
  endScope line
  let exit ← if hasNext then some <$> emitJump (.jump 0) line else pure none
  patchJump next pos
  return exit

/-- Emits the closing of a resource, unless it is falsy. -/
def emitClose (pos : Position) (name : String) : Gen Unit :=
  emitBranch pos (getVariable name pos)
    (do
      getVariable name pos
      emit (.invoke 0 (← addName "close" pos)) pos.line
      emit .pop pos.line)
    none

/-- Emits `with` around the code of the value and the body: a block that declares the variable and
a `try` whose `ensure` part closes it. -/
def emitWith (ctx : Context) (pos : Position) (name : String) (value body : Context → Gen Unit) :
    Gen Unit :=
  inScope pos.line do
    emitDeclare pos [name] none
    emitTry ctx pos
      (fun ctx => inScope pos.line do
        value ctx
        setVariable name pos
        emit .pop pos.line
        body ctx)
      none
      (some fun _ => emitClose pos name)

/-- Emits a class around the code of the superclass and of the methods. The superclass is held in a
hidden local while the methods are defined. -/
def emitClass (pos : Position) (name : String) (superclass methods : Gen Unit) : Gen Unit := do
  let line := pos.line
  emit (.newClass (← addName name pos)) line
  defineVariable name pos
  beginScope
  superclass
  defineLocal "super" pos
  getVariable name pos
  emit .subclass line
  methods
  -- the class copy, then the hidden local
  emit .pop line
  endScope line

/-- Emits a return around the code of the value. -/
def emitReturnStmt (ctx : Context) (pos : Position) (value : Option (Gen Unit)) : Gen Unit := do
  match ctx.kind, value with
  | .script, _ => fail .returnOutside pos
  | .constructor, some _ => fail .constructorReturn pos
  | .constructor, none => emit (.getLocal 0) pos.line
  | _, some value => value
  | _, none => emit .null pos.line
  emitReturn ctx pos.line

/-- Emits the empty list that items, some of them spread, are appended to. -/
def emitListStart (items : List Expr) : Gen Unit := do
  match items with
  | [] => return
  | e :: _ => emit (.newList 0) e.pos.line

/-- The parts of a function declaration as a signature. -/
def signatureOf (kind : FunctionKind) (name : String) (params : List Parameter)
    (vararg : Option String) (body : List Stmt) (pos : Position) : Signature :=
  { kind, name, params, vararg, isGenerator := Stmt.yieldsAny body, pos,
    endLine := lastLine body pos.line }

mutual

/-- Emits an expression. -/
def compileExpr (ctx : Context) : Expr → Gen Unit
  | .number pos n => emitConstant (.number n) pos
  | .string pos s => emitConstant (.string s) pos
  | .bool pos b => emit (if b then .true else .false) pos.line
  | .null pos => emit .null pos.line
  | .ident pos name => getVariable name pos
  | .receiver pos =>
    if ctx.method.isNone then fail .receiverOutside pos else getVariable "this" pos
  | .binary pos op left right => do
    compileExpr ctx left
    compileExpr ctx right
    emitBinary op pos.line
  | .unary pos op operand => do
    compileExpr ctx operand
    emitUnary op pos
  | .conj pos left right => do
    compileExpr ctx left
    emit .dup pos.line
    let jump ← emitJump (.jumpIfFalse 0) pos.line
    emit .pop pos.line
    compileExpr ctx right
    patchJump jump pos
  | .disj pos left right => do
    compileExpr ctx left
    emit .dup pos.line
    let jump ← emitJump (.jumpIfTrue 0) pos.line
    emit .pop pos.line
    compileExpr ctx right
    patchJump jump pos
  | .conditional pos condition thenExpr elseExpr =>
    emitBranch pos (compileExpr ctx condition) (compileExpr ctx thenExpr)
      (some (compileExpr ctx elseExpr))
  | .assign _ (.ident pos name) value => do
    compileExpr ctx value
    setVariable name pos
  | .assign _ (.member pos object name) value => do
    compileExpr ctx object
    compileExpr ctx value
    emit (.setField (← addName name pos)) pos.line
  | .assign _ (.index pos object index) value => do
    compileExpr ctx object
    compileExpr ctx index
    compileExpr ctx value
    emit .setSubscript pos.line
  | .assign _ target _ => fail .invalidTarget target.pos
  | .compound _ op (.ident pos name) value => do
    getVariable name pos
    compileExpr ctx value
    emitBinary op pos.line
    setVariable name pos
  | .compound _ op (.member pos object name) value => do
    let field ← addName name pos
    compileExpr ctx object
    emit .dup pos.line
    emit (.getField field) pos.line
    compileExpr ctx value
    emitBinary op pos.line
    emit (.setField field) pos.line
  | .compound _ op (.index pos object index) value => do
    compileExpr ctx object
    compileExpr ctx index
    emit .dup2 pos.line
    emit .getSubscript pos.line
    compileExpr ctx value
    emitBinary op pos.line
    emit .setSubscript pos.line
  | .compound _ _ target _ => fail .invalidTarget target.pos
  | .call pos (.member _ object name) arguments => do
    -- a method call makes no bound method
    compileExpr ctx object
    if hasSpread arguments then
      emitListStart arguments
      compileSpread ctx arguments
      emit (.invokeUnpack (← addName name pos)) pos.line
    else
      if arguments.length > maxArguments then fail .tooManyArguments pos
      compileExprs ctx arguments
      emit (.invoke (UInt8.ofNat arguments.length) (← addName name pos)) pos.line
  | .call pos callee arguments => do
    compileExpr ctx callee
    if hasSpread arguments then
      emitListStart arguments
      compileSpread ctx arguments
      emit .callUnpack pos.line
    else
      if arguments.length > maxArguments then fail .tooManyArguments pos
      compileExprs ctx arguments
      emit (.call (UInt8.ofNat arguments.length)) pos.line
  | .member pos object name => do
    compileExpr ctx object
    emit (.getField (← addName name pos)) pos.line
  | .index pos object index => do
    compileExpr ctx object
    compileExpr ctx index
    emit .getSubscript pos.line
  | .superCall pos method arguments => do
    let name ← superName ctx method pos
    getVariable "this" pos
    if hasSpread arguments then
      emitListStart arguments
      compileSpread ctx arguments
      getVariable "super" pos
      emit (.superUnpack (← addName name pos)) pos.line
    else
      if arguments.length > maxArguments then fail .tooManyArguments pos
      compileExprs ctx arguments
      getVariable "super" pos
      emit (.superCall (UInt8.ofNat arguments.length) (← addName name pos)) pos.line
  | .superMember pos method => do
    let name ← superName ctx method pos
    getVariable "this" pos
    if method.isNone then fail .superIncomplete pos
    getVariable "super" pos
    emit (.superBind (← addName name pos)) pos.line
  | .list pos items => do
    if hasSpread items then
      emitListStart items
      compileSpread ctx items
    else
      if items.length > maxElements then fail .tooManyElements pos
      compileExprs ctx items
      emit (.newList (UInt16.ofNat items.length)) pos.line
  | .tuple pos items => do
    if hasSpread items then
      emitListStart items
      compileSpread ctx items
      emit .listToTuple pos.line
    else
      if items.length > maxElements then fail .tooManyElements pos
      compileExprs ctx items
      emit (.newTuple (UInt16.ofNat items.length)) pos.line
  | .table pos entries => do
    if entries.length > maxElements then fail .tooManyEntries pos
    compileEntries ctx entries
    emit (.newTable (UInt16.ofNat entries.length)) pos.line
  | .function pos ⟨name, params, vararg, body, declPos⟩ =>
    emitFunction ctx
      (signatureOf .function (literalName name pos.line) params vararg body declPos)
      fun ctx => compileStmts ctx body
  | .spread pos _ => fail .spreadMisplaced pos
  | .yield pos value => do
    if !ctx.isGenerator then fail .yieldOutside pos
    match value with
    | some value => compileExpr ctx value
    | none => emit .null pos.line
    -- resuming pushes the value sent as the result
    emit .yield pos.line

/-- Emits expressions one after another. -/
def compileExprs (ctx : Context) : List Expr → Gen Unit
  | [] => return
  | e :: rest => do
    compileExpr ctx e
    compileExprs ctx rest

/-- Extends the list on top of the stack item by item. -/
def compileSpread (ctx : Context) : List Expr → Gen Unit
  | [] => return
  | .spread pos inner :: rest => do
    compileExpr ctx inner
    emit .extendList pos.line
    compileSpread ctx rest
  | e :: rest => do
    compileExpr ctx e
    emit .appendList e.pos.line
    compileSpread ctx rest

/-- Emits the keys and values of a table literal. -/
def compileEntries (ctx : Context) : List (Expr × Expr) → Gen Unit
  | [] => return
  | (k, v) :: rest => do
    compileExpr ctx k
    compileExpr ctx v
    compileEntries ctx rest

/-- Emits a statement. -/
def compileStmt (ctx : Context) : Stmt → Gen Unit
  | .expression pos e => do
    compileExpr ctx e
    emit .pop pos.line
  | .declare pos names (some e) => emitDeclare pos names (some (compileExpr ctx e))
  | .declare pos names none => emitDeclare pos names none
  | .block pos body => inScope pos.line (compileStmts ctx body)
  | .branch pos c t (some e) =>
    emitBranch pos (compileExpr ctx c) (compileStmt ctx t) (some (compileStmt ctx e))
  | .branch pos c t none => emitBranch pos (compileExpr ctx c) (compileStmt ctx t) none
  | .whileLoop pos c body => emitWhile ctx pos (compileExpr ctx c) (compileStmt ctx body)
  | .forLoop pos initial condition step body =>
    emitFor ctx pos
      (match initial with
        | some s => some (compileStmt ctx s)
        | none => none)
      (match condition with
        | some e => some (compileExpr ctx e)
        | none => none)
      (match step with
        | some e => some (compileExpr ctx e)
        | none => none)
      (compileStmt ctx body)
  | .forEach pos names iterable body =>
    emitForEach ctx pos names (compileExpr ctx iterable) (compileStmt ctx body)
  | .breakLoop pos => emitBreak ctx pos
  | .continueLoop pos => emitContinue ctx pos
  | .returnValue pos (some e) => emitReturnStmt ctx pos (some (compileExpr ctx e))
  | .returnValue pos none => emitReturnStmt ctx pos none
  | .raise pos e => do
    compileExpr ctx e
    emit .raise pos.line
  | .guarded pos body clauses ensure =>
    emitTry ctx pos (fun ctx => compileStmt ctx body)
      (if clauses.isEmpty then none
        else some fun ctx exceptionSlot causeSlot => do
          let exits ← compileClauses ctx exceptionSlot causeSlot clauses
          patchJumps exits ⟨0, 0⟩)
      (match ensure with
        | some s => some fun ctx => compileStmt ctx s
        | none => none)
  | .withResource pos name value body =>
    emitWith ctx pos name (fun ctx => compileExpr ctx value) (fun ctx => compileStmt ctx body)
  | .function _ ⟨name, params, vararg, body, pos⟩ => do
    let sig := signatureOf .function name params vararg body pos
    if ← atTopLevel then
      emitFunction ctx sig fun ctx => compileStmts ctx body
      defineVariable name pos
    else
      -- declared before the body so that the function can call itself
      defineLocal name pos
      emitFunction ctx sig fun ctx => compileStmts ctx body
  | .native pos d => do
    emit (.native (← nativeConstant d)) pos.line
    defineVariable d.name d.pos
  | .classDef pos name superclass methods =>
    emitClass pos name
      (match superclass with
        | some e => compileExpr ctx e
        | none => emit .getObject pos.line)
      (compileMethods ctx name methods)
  | .importModule pos d => emitImport pos d

/-- Emits statements one after another. -/
def compileStmts (ctx : Context) : List Stmt → Gen Unit
  | [] => return
  | s :: rest => do
    compileStmt ctx s
    compileStmts ctx rest

/-- Emits the clauses of a `try` statement and gives the jumps out of them. -/
def compileClauses (ctx : Context) (exceptionSlot causeSlot : UInt16) :
    List ExceptClause → Gen (List Nat)
  | [] => return []
  | ⟨pos, exceptionClass, binder, body⟩ :: rest => do
    let exit ← emitClause pos exceptionSlot causeSlot binder (compileExpr ctx exceptionClass)
      (compileStmt ctx body) (!rest.isEmpty)
    let exits ← compileClauses ctx exceptionSlot causeSlot rest
    return exit.toList ++ exits

/-- Emits the methods of a class. Each is compiled knowing its own name, for `super`. -/
def compileMethods (ctx : Context) (className : String) : List Method → Gen Unit
  | [] => return
  | .function ⟨name, params, vararg, body, pos⟩ :: rest => do
    let kind : FunctionKind := if name == "construct" then .constructor else .method
    emitFunction { ctx with method := some name }
      (signatureOf kind (className ++ "." ++ name) params vararg body pos)
      fun ctx => compileStmts ctx body
    emit (.defMethod (← addName name pos)) pos.line
    compileMethods ctx className rest
  | .native d :: rest => do
    emit (.nativeMethod (← nativeConstant d)) d.pos.line
    compileMethods ctx className rest

end

/-- The context of a module's top-level code. -/
def topLevel : Context := { kind := .script, isGenerator := false, method := none, tries := [] }

/-- Compiles a program. The instructions from one line are counted in thirty-two bits; where they are
too many, there is no module. -/
def compile (program : Program) : Except CompileError Module :=
  let generate : Gen Unit := do
    compileStmts topLevel program.body
    let line := lastLine program.body 1
    emit .null line
    emit .return line
  match generate.run ⟨.start "", []⟩ with
  | .error d => .error ⟨program.file, d⟩
  | .ok (_, s) =>
    if s.current.overflowed then .error ⟨program.file, ⟨.overflow, ⟨0, 0⟩⟩⟩
    else
      .ok
        { file := program.file
          main :=
            { name := ""
              arity := 0
              defaults := #[]
              vararg := false
              upvalueCount := 0
              chunk := s.current.chunk } }

end ScriptEngine.Compile
