import ScriptEngine.Compile.Scope
import ScriptEngine.Source.Tree

/-!
# Emitting code

Code generation is a state over the function under construction and the functions around it, which
stops at the first diagnostic. The context says what surrounds the statement being compiled: the
kind of function, the method it belongs to, and the `try` statements a jump out of a loop has to
leave. Each of those carries the code of its `ensure` part as an action, ready to be emitted inline.
-/

namespace ScriptEngine.Compile

open Bytecode Source

/-- The function under construction and those around it, innermost first. -/
structure CompilerState where
  /-- The function whose code is being emitted. -/
  current : FunctionState
  /-- Enclosing functions. -/
  enclosing : List FunctionState

/-- Code generation. -/
abbrev Gen (α : Type) : Type := StateT CompilerState (Except Diagnostic) α

/-- What kind of function is compiled. -/
inductive FunctionKind where
  | script | function | method | constructor
  deriving DecidableEq, Repr

/-- A `try` statement around the current statement. -/
structure TryBlock where
  /-- Locals on the frame where its handlers were set up. -/
  localCount : Nat
  /-- Handlers of it that are installed at this place. -/
  liveHandlers : Nat
  /-- Emits its `ensure` part, if that still has to run. -/
  ensure : Option (Gen Unit)

/-- What surrounds a statement. -/
structure Context where
  /-- Kind of the function. -/
  kind : FunctionKind
  /-- Whether the function is a generator. -/
  isGenerator : Bool
  /-- Name of the method, inside methods and functions nested in them. -/
  method : Option String
  /-- Enclosing `try` statements of the same function, innermost first. -/
  tries : List TryBlock

/-- Stops with a diagnostic. -/
def fail {α : Type} (cause : Cause) (pos : Position) : Gen α := throw ⟨cause, pos⟩

/-- Changes the function under construction. -/
def updateFunction (f : FunctionState → FunctionState) : Gen Unit :=
  modify fun ⟨current, enclosing⟩ => ⟨f current, enclosing⟩

/-- Changes the function under construction or stops. -/
def updateFunctionM (f : FunctionState → Except Diagnostic FunctionState) : Gen Unit := do
  let ⟨current, enclosing⟩ ← get
  set (CompilerState.mk (← f current) enclosing)

/-- Appends an instruction. -/
def emit (op : Op) (line : Nat) : Gen Unit := updateFunction (·.emit op line)

/-- The offset of the next instruction. -/
def offset : Gen Nat := return (← get).current.chunk.size

/-- Appends an instruction and gives its offset. -/
def emitJump (op : Op) (line : Nat) : Gen Nat := do
  let at' ← offset
  emit op line
  return at'

/-- Makes a forward jump land on the next instruction. -/
def patchJump (jump : Nat) (pos : Position) : Gen Unit :=
  updateFunctionM fun ⟨chunk, scope, depth, captures, loops, overflowed⟩ =>
    match chunk.patchJump? jump with
    | some chunk => .ok ⟨chunk, scope, depth, captures, loops, overflowed⟩
    | none => .error ⟨.jumpTooLong, pos⟩

/-- Makes several forward jumps land on the next instruction. -/
def patchJumps (jumps : List Nat) (pos : Position) : Gen Unit :=
  jumps.forM (patchJump · pos)

/-- Jumps back to an offset. -/
def emitLoop (start : Nat) (pos : Position) : Gen Unit := do
  let distance := (← offset) - start + 1
  if distance ≤ Chunk.maxJump then emit (.loop (UInt16.ofNat distance)) pos.line
  else fail .loopTooLong pos

/-- Enters a constant into the pool. -/
def addConstant (c : Constant) (pos : Position) : Gen UInt16 := do
  let ⟨⟨chunk, scope, depth, captures, loops, overflowed⟩, enclosing⟩ ← get
  match chunk.addConstant? c with
  | some (i, chunk) =>
    set (CompilerState.mk ⟨chunk, scope, depth, captures, loops, overflowed⟩ enclosing)
    return i
  | none => fail .tooManyConstants pos

/-- Enters a name into the pool. -/
def addName (name : String) (pos : Position) : Gen UInt16 := addConstant (.string name) pos

/-- Pushes a constant. -/
def emitConstant (c : Constant) (pos : Position) : Gen Unit := do
  emit (.constant (← addConstant c pos)) pos.line

/-! ## Scopes and variables -/

/-- Opens a scope. -/
def beginScope : Gen Unit := updateFunction fun f => { f with depth := f.depth + 1 }

/-- Closes a scope and drops its locals. -/
def endScope (line : Nat) : Gen Unit :=
  updateFunction fun f =>
    let f := { f with depth := f.depth - 1 }
    f.dropScope line f.locals

/-- Emits code in a scope of its own. -/
def inScope (line : Nat) (body : Gen Unit) : Gen Unit := do
  beginScope
  body
  endScope line

/-- The number of locals on the frame. -/
def localCount : Gen Nat := return (← get).current.locals.length

/-- Whether declarations make globals. -/
def atTopLevel : Gen Bool := return (← get).current.depth == 0

/-- Declares a local whose value is already on the stack. -/
def defineLocal (name : String) (pos : Position) : Gen Unit := updateFunctionM (·.define name pos)

/-- Binds the value on top of the stack: to a global at the top level, else to a local. -/
def defineVariable (name : String) (pos : Position) : Gen Unit := do
  if ← atTopLevel then emit (.defineGlobal (← addName name pos)) pos.line
  else defineLocal name pos

/-- How a variable is reached at run time. -/
inductive Access where
  | slot (index : UInt16)
  | upvalue (index : UInt16)
  | global
  deriving DecidableEq, Repr

/-- Resolves a name. -/
def resolve (name : String) (pos : Position) : Gen Access := do
  let s ← get
  match ← s.current.resolveLocal name pos with
  | some slot => return .slot slot
  | none =>
    let (found, current, enclosing) ← resolveUpvalue name pos s.current s.enclosing
    set (CompilerState.mk current enclosing)
    match found with
    | some i => return .upvalue i
    | none => return .global

/-- Pushes a variable. -/
def getVariable (name : String) (pos : Position) : Gen Unit := do
  match ← resolve name pos with
  | .slot i => emit (.getLocal i) pos.line
  | .upvalue i => emit (.getUpvalue i) pos.line
  | .global => emit (.getGlobal (← addName name pos)) pos.line

/-- Assigns the value on top of the stack to a variable. -/
def setVariable (name : String) (pos : Position) : Gen Unit := do
  match ← resolve name pos with
  | .slot i => emit (.setLocal i) pos.line
  | .upvalue i => emit (.setUpvalue i) pos.line
  | .global => emit (.setGlobal (← addName name pos)) pos.line

/-- The instructions of a binary operator. -/
def binaryOps : BinaryOp → List Op
  | .add => [.add]
  | .subtract => [.subtract]
  | .multiply => [.multiply]
  | .divide => [.divide]
  | .modulo => [.modulo]
  | .power => [.power]
  | .equal => [.equal]
  | .notEqual => [.equal, .not]
  | .less => [.less]
  | .lessEqual => [.lessEqual]
  | .greater => [.greater]
  | .greaterEqual => [.greaterEqual]
  | .is => [.is]
  | .bitAnd => [.bitAnd]
  | .bitOr => [.bitOr]
  | .xor => [.xor]
  | .shiftLeft => [.shiftLeft]
  | .shiftRight => [.shiftRight]

/-- Emits a binary operator. -/
def emitBinary (op : BinaryOp) (line : Nat) : Gen Unit := (binaryOps op).forM (emit · line)

/-- Emits a unary operator. Length and text are method calls. -/
def emitUnary (op : UnaryOp) (pos : Position) : Gen Unit := do
  match op with
  | .negate => emit .negate pos.line
  | .not => emit .not pos.line
  | .bitNot => emit .invert pos.line
  | .length => emit (.invoke 0 (← addName "__len__" pos)) pos.line
  | .stringify => emit (.invoke 0 (← addName "__string__" pos)) pos.line

/-! ## Loops and `try` statements -/

/-- Changes the innermost loop record. -/
def updateLoop (g : LoopRecord → LoopRecord) : Gen Unit :=
  updateFunction fun f =>
    match f.loops with
    | [] => f
    | l :: rest => { f with loops := g l :: rest }

/-- Enters a loop. -/
def beginLoop (ctx : Context) (continueTarget : Option Nat) : Gen Unit :=
  updateFunction fun f =>
    { f with
      loops := ⟨continueTarget, [], [], f.locals.length, ctx.tries.length⟩ :: f.loops }

/-- Makes pending `continue` jumps land here. -/
def patchContinues (pos : Position) : Gen Unit := do
  match (← get).current.loops with
  | [] => return
  | l :: _ =>
    patchJumps l.continuePatches pos
    updateLoop fun l => { l with continuePatches := [] }

/-- Leaves a loop; `break` jumps land here. -/
def endLoop (pos : Position) : Gen Unit := do
  match (← get).current.loops with
  | [] => return
  | l :: rest =>
    updateFunction fun f => { f with loops := rest }
    patchJumps l.breakPatches pos

/-- Leaves `try` statements, innermost first: drops the locals made since its handlers were set up,
removes its handlers and emits its pending `ensure` part. -/
def leaveTries (line : Nat) : List TryBlock → Gen Unit
  | [] => return
  | block :: rest => do
    updateFunction (·.discardLocals block.localCount line)
    updateFunction fun f =>
      { f with scope := .ofList (f.locals.drop (f.locals.length - block.localCount)) }
    (List.range block.liveHandlers).forM fun _ => emit .popHandler line
    block.ensure.forM id
    leaveTries line rest

/-- The saved locals, with the captures that code emitted in between has made. Slots count from the
outer end. -/
def mergeCaptures (saved current : List Local) : List Local :=
  (List.zipWithAll (fun s c =>
    match s, c with
    | some s, some c => [{ s with captured := s.captured || c.captured }]
    | some s, none => [s]
    | none, _ => []) saved.reverse current.reverse).flatten.reverse

/-- Leaves every `try` statement entered since the innermost loop began. The code that follows still
sees the locals as they were. -/
def exitTries (ctx : Context) (tryDepth line : Nat) : Gen Unit := do
  if ctx.tries.length ≤ tryDepth then return
  let saved := (← get).current.locals
  leaveTries line (ctx.tries.take (ctx.tries.length - tryDepth))
  updateFunction fun f => { f with scope := .ofList (mergeCaptures saved f.locals) }

/-- `break`. -/
def emitBreak (ctx : Context) (pos : Position) : Gen Unit := do
  match (← get).current.loops with
  | [] => fail .breakOutside pos
  | l :: _ =>
    exitTries ctx l.tryDepth pos.line
    updateFunction (·.discardLocals l.localCount pos.line)
    let jump ← emitJump (.jump 0) pos.line
    updateLoop fun l => { l with breakPatches := l.breakPatches ++ [jump] }

/-- `continue`. -/
def emitContinue (ctx : Context) (pos : Position) : Gen Unit := do
  match (← get).current.loops with
  | [] => fail .continueOutside pos
  | l :: _ =>
    exitTries ctx l.tryDepth pos.line
    updateFunction (·.discardLocals l.localCount pos.line)
    match l.continueTarget with
    | some start => emitLoop start pos
    | none =>
      let jump ← emitJump (.jump 0) pos.line
      updateLoop fun l => { l with continuePatches := l.continuePatches ++ [jump] }

/-- Returns the value on top of the stack, completing a generator first. -/
def emitReturn (ctx : Context) (line : Nat) : Gen Unit := do
  if ctx.isGenerator then emit .generatorClose line
  emit .return line

/-- A `try` statement. `clauses` emits the except clauses, given the slots of the hidden locals
that hold the exception and the cause. The handler of `ensure` lies below that of the clauses. -/
def emitTry (ctx : Context) (pos : Position) (body : Context → Gen Unit)
    (clauses : Option (Context → UInt16 → UInt16 → Gen Unit))
    (ensure : Option (Context → Gen Unit)) : Gen Unit := do
  let line := pos.line
  let ensureSetup ← ensure.mapM fun _ => emitJump (.setupEnsure 0) line
  let exceptSetup ← clauses.mapM fun _ => emitJump (.setupExcept 0) line
  let count ← localCount
  let ensureHandlers := if ensure.isSome then 1 else 0
  let exceptHandlers := if clauses.isSome then 1 else 0
  let inlined := ensure.map fun e => e ctx
  let within (handlers : Nat) (pending : Option (Gen Unit)) : Context :=
    { ctx with tries := ⟨count, handlers, pending⟩ :: ctx.tries }
  body (within (exceptHandlers + ensureHandlers) inlined)
  if clauses.isSome then emit .popHandler line
  if ensure.isSome then
    emit .popHandler line
    -- no exception and no pending return
    emit .null line
    emit .null line
  beginScope
  let exceptionSlot ← localCount
  defineLocal ".exception" pos
  defineLocal ".cause" pos
  match clauses, exceptSetup with
  | some clauses, some setup =>
    let skip ← emitJump (.jump 0) line
    patchJump setup pos
    clauses (within ensureHandlers inlined) (UInt16.ofNat exceptionSlot)
      (UInt16.ofNat (exceptionSlot + 1))
    if ensure.isSome then emit .popHandler line
    else
      emit .endHandler line
      endScope line
    patchJump skip pos
  | _, _ => pure ()
  match ensure, ensureSetup with
  | some ensure, some setup =>
    patchJump setup pos
    ensure (within 0 none)
    emit .endHandler line
    endScope line
  | _, _ => pure ()

end ScriptEngine.Compile
