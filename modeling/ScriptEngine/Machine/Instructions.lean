import ScriptEngine.Machine.Iteration
import ScriptEngine.Machine.Loading

/-!
# Instructions

What each instruction does. The instruction pointer is past the instruction when it is executed, so
that jumps count from the next one.
-/

namespace ScriptEngine.Act

open Bytecode

/-- A constant of the running function. -/
def constant (index : UInt16) : Act Value := do
  let f ← frame
  let o ← functionOf f.function
  match o.constants[index.toNat]? with
  | some v => return v
  | none => fault .constant

/-- A constant that is a name. -/
def name (index : UInt16) : Act Key := do
  match ← constant index with
  | .object h =>
    match ← gets (·.heap.string? h) with
    | some str => return ⟨h, str.hash⟩
    | none => fault .constant
  | _ => fault .constant

/-- A constant that is an object. -/
def constantHandle (index : UInt16) : Act Handle := do
  match ← constant index with
  | .object h => return h
  | _ => fault .constant

/-- A native declaration among the constants. -/
def declaration (index : UInt16) : Act NativeProto := do
  let f ← frame
  match f.proto.chunk.constants[index.toNat]? with
  | some (.native d) => return d
  | _ => fault .constant

/-! ## Variables -/

/-- Pushes a global of a module. -/
def pushModuleGlobal (module : Handle) (name : Key) : Act Unit := do
  match ← gets (·.global? module name) with
  | some v => push v
  | none => noName module name

/-- Assigns the top value to a global that exists. -/
def assignGlobal (name : Key) : Act Unit := do
  let module ← gets (·.currentModule)
  let v ← peek 0
  if (← gets (·.global? module name)).isSome then modify (·.setGlobal module name v)
  else noName module name

/-- A captured variable of the running closure. -/
def upvalueAt (index : UInt16) : Act Handle := do
  let f ← frame
  match ← object f.closure with
  | .closure _ upvalues =>
    match upvalues[index.toNat]? with
    | some h => return h
    | none => fault .upvalue
  | _ => fault .kind

/-- The value of a captured variable. -/
def readUpvalue (h : Handle) : Act Value := do
  match ← object h with
  | .upvalue (.opened slot) => slotAt slot
  | .upvalue (.closed v) => return v
  | _ => return .null

/-- Assigns a captured variable. -/
def writeUpvalue (h : Handle) (v : Value) : Act Unit := do
  match ← object h with
  | .upvalue (.opened slot) => setSlotAt slot v
  | .upvalue (.closed _) =>
    modify fun s => { s with heap := s.heap.update h fun _ => .upvalue (.closed v) }
  | _ => pure ()

/-- The upvalue of a slot: one that exists already, or a new one. -/
def captureSlot (slot : Nat) : Act Handle := do
  match ← gets fun s => s.openUpvalues.find? fun h => State.openSlot? s.heap h == some slot with
  | some h => return h
  | none =>
    let h ← alloc (.upvalue (.opened slot))
    modify fun s => { s with openUpvalues := h :: s.openUpvalues }
    return h

/-- The upvalue a closure captures. -/
def capture (base : Nat) (c : Capture) : Act Handle :=
  if c.isLocal then captureSlot (base + c.index.toNat) else upvalueAt c.index

/-- Pushes a closure of a function constant. -/
def pushClosure (index : UInt16) (captures : List Capture) : Act Unit := do
  let function ← constantHandle index
  let base := (← frame).base
  let captured ← captures.mapM (capture base)
  push (.object (← alloc (.closure function captured.toArray)))

/-! ## Jumps and returns -/

/-- Moves the instruction pointer forward. -/
def jumpBy (distance : UInt16) : Act Unit :=
  modify fun s => s.modifyFrame fun f => { f with ip := f.ip + distance.toNat }

/-- Moves the instruction pointer back. -/
def jumpBack (distance : UInt16) : Act Unit :=
  modify fun s => s.modifyFrame fun f => { f with ip := f.ip - distance.toNat }

/-- Returns from the innermost frame, unless an ensure block of it has to run first. -/
def returnValue (v : Value) : Act Control := do
  let f ← frame
  if ← modifyGet (·.unwindReturn v) then return .next
  else
    modify fun s => ((s.leaveFrame f).truncate f.base).push v
    return .next

/-- Turns the innermost frame into a generator that has not run, and returns it. -/
def makeGenerator : Act Control := do
  let f ← frame
  let window ← gets (·.slotsFrom f.base)
  let h ← alloc (.generator
    { closure := f.closure
      function := f.function
      state := .started
      ip := f.ip
      stack := window
      handlers := lowerHandlers f.base f.handlers
      lastYield := .null })
  modify fun s => s.modifyFrame fun f => { f with handlers := [] }
  returnValue (.object h)

/-- Suspends the generator of a frame with the slots of the frame and the value it yields. -/
def suspend (g : Handle) (f : Frame) (v : Value) : Act Unit := do
  modify fun s => s.dropFrame.closeUpvalues f.base
  let window ← gets (·.slotsFrom f.base)
  truncate f.base
  modify (·.update g fun
    | .generator o =>
      .generator
        { o with
          state := .suspended
          ip := f.ip
          stack := window
          handlers := lowerHandlers f.base f.handlers
          lastYield := v }
    | o => o)
  push v

/-- Suspends the running generator, handing the top value to its caller. -/
def yieldValue : Act Control := do
  let v ← pop
  let f ← frame
  match f.generator with
  | none => fault .yield
  | some g =>
    suspend g f v
    return .next

/-! ## Handlers -/

/-- Installs a handler in the innermost frame. -/
def installHandler (kind : HandlerKind) (distance : UInt16) : Act Unit :=
  modify fun s =>
    let height := s.stack.size
    s.modifyFrame fun f =>
      { f with handlers := ⟨kind, f.ip + distance.toNat, height⟩ :: f.handlers }

/-- Removes the handler installed last. -/
def removeHandler : Act Unit :=
  modify fun s => s.modifyFrame fun f => { f with handlers := f.handlers.tail }

/-- Goes on after a handler: falls through on null, returns, or raises again. -/
def endHandler : Act Control := do
  if (← peek 0).isNull then return .next
  else
    let cause ← pop
    if cause.same (.number causeReturn) then returnValue (← pop) else raise

/-! ## Classes and values -/

/-- `[value, class] → [bool]` -/
def testInstance : Act Unit := do
  let c ← peek 0
  let v ← peek 1
  match c.handle?, ← gets fun s => (c.handle?.bind s.class?).isSome with
  | some h, true => replaceTop 2 (.bool (← testClass v h))
  | _, _ => fail .typeException "Right operand of `is` must be a Class"

/-- `[class] → [class]`, adding a method of the host. -/
def addNativeMethod (index : UInt16) : Act Unit := do
  let owner ← peek 0
  let h ← resolveNative (← declaration index) owner.handle?
  let text ← gets fun s =>
    match s.heap.get? h with
    | some (.native n) => n.name
    | _ => ""
  let key ← internKey text
  modify (·.defineMethod owner key (.object h))

/-- `[list] → [tuple]` -/
def listToTuple : Act Unit := do
  let v ← peek 0
  let items ← gets fun s => (s.list? v).getD #[]
  let h ← alloc (.tuple items)
  replaceTop 1 (.object h)

/-- Calls a method of the superclass, which is popped first. -/
def superclassMethod (index : UInt16) : Act Value := do
  let key ← name index
  superMethod (← pop) key

/-- Runs an action and goes on with the next instruction. -/
@[inline] def thenNext (x : Act Unit) : Act Control := do
  x
  return .next

/-- Executes an instruction. -/
def execute : Op → Act Control
  | .constant i => thenNext do push (← constant i)
  | .null => thenNext (push .null)
  | .true => thenNext (push (.bool true))
  | .false => thenNext (push (.bool false))
  | .pop => thenNext (modify State.drop)
  | .dup => thenNext do push (← peek 0)
  | .dup2 => thenNext do
    let a ← peek 1
    let b ← peek 0
    push a
    push b
  | .getLocal slot => thenNext do
    let f ← frame
    push (← slotAt (f.base + slot.toNat))
  | .setLocal slot => thenNext do
    let f ← frame
    let v ← peek 0
    setSlotAt (f.base + slot.toNat) v
  | .getGlobal i => thenNext do
    let key ← name i
    let module ← gets (·.currentModule)
    pushModuleGlobal module key
  | .setGlobal i => thenNext do assignGlobal (← name i)
  | .defineGlobal i => thenNext do
    let key ← name i
    let v ← pop
    modify fun s => s.setGlobal s.currentModule key v
  | .getUpvalue i => thenNext do push (← readUpvalue (← upvalueAt i))
  | .setUpvalue i => thenNext do
    let h ← upvalueAt i
    let v ← peek 0
    writeUpvalue h v
  | .closeUpvalue => thenNext do
    let top ← start 1
    modify fun s => (s.closeUpvalues top).drop
  | .getField i => thenNext do
    let key ← name i
    let v ← getField (← peek 0) key
    replaceTop 1 v
  | .setField i => thenNext do
    let key ← name i
    let v ← peek 0
    setField (← peek 1) key v
    replaceTop 2 v
  | .getSubscript => getSubscript
  | .setSubscript => setSubscript
  | .add => binary .add
  | .subtract => binary .subtract
  | .multiply => binary .multiply
  | .divide => binary .divide
  | .modulo => binary .modulo
  | .power => binary .power
  | .negate => negate
  | .bitAnd => binary .bitAnd
  | .bitOr => binary .bitOr
  | .xor => binary .xor
  | .shiftLeft => binary .shiftLeft
  | .shiftRight => binary .shiftRight
  | .invert => invert
  | .equal => thenNext do
    let b ← peek 0
    let a ← peek 1
    let same ← equal a b
    replaceTop 2 (.bool same)
  | .less => binary .less
  | .lessEqual => binary .lessEqual
  | .greater => binary .greater
  | .greaterEqual => binary .greaterEqual
  | .is => thenNext testInstance
  | .not => thenNext do
    let v ← pop
    push (.bool (!v.isTruthy))
  | .jump d => thenNext do
    jumpBy d
    checkInterrupt
  | .jumpIfFalse d => thenNext do
    let v ← pop
    if v.isTruthy then pure () else jumpBy d
  | .jumpIfTrue d => thenNext do
    let v ← pop
    if v.isTruthy then jumpBy d else pure ()
  | .loop d => thenNext do
    jumpBack d
    checkInterrupt
  | .callShort argc => do
    checkInterrupt
    return .call argc.val
  | .callLong argc => do
    checkInterrupt
    return .call argc.toNat
  | .invokeShort argc i => do
    checkInterrupt
    invoke (← name i) argc.val
  | .invokeLong argc i => do
    checkInterrupt
    invoke (← name i) argc.toNat
  | .callUnpack => do
    checkInterrupt
    return .call (← spreadArguments)
  | .invokeUnpack i => do
    checkInterrupt
    let key ← name i
    invoke key (← spreadArguments)
  | .superCall argc i => do
    checkInterrupt
    return .invoke (← superclassMethod i) argc.toNat
  | .superUnpack i => do
    checkInterrupt
    let m ← superclassMethod i
    return .invoke m (← spreadArguments)
  | .superBind i => thenNext do
    let m ← superclassMethod i
    let v ← bindMethod (← peek 0) m
    replaceTop 1 v
  | .return => do
    checkInterrupt
    returnValue (← pop)
  | .closure i captures => thenNext (pushClosure i captures)
  | .native i => thenNext do push (.object (← resolveNative (← declaration i) none))
  | .newList count => thenNext (pack count.toNat .list)
  | .newTuple count => thenNext (pack count.toNat .tuple)
  | .newTable count => thenNext (newTable count.toNat)
  | .unpack count => thenNext (unpack count.toNat)
  | .appendList => thenNext do
    let v ← pop
    match ← peek 0 with
    | .object h => modify (·.appendTo h v)
    | _ => pure ()
  | .extendList => extendList
  | .listToTuple => thenNext listToTuple
  | .getObject => thenNext do push (.object (← gets (·.coreClass .object)))
  | .newClass i => thenNext do
    let text ← constantHandle i
    push (.object (← alloc (.classObject ⟨text, none, .empty, false⟩)))
  | .subclass => thenNext subclass
  | .defMethod i => thenNext do
    let key ← name i
    let m ← pop
    let owner ← peek 0
    modify (·.defineMethod owner key m)
  | .nativeMethod i => thenNext (addNativeMethod i)
  | .setupExcept d => thenNext (installHandler .except d)
  | .setupEnsure d => thenNext (installHandler .ensure d)
  | .popHandler => thenNext removeHandler
  | .endHandler => endHandler
  | .raise => raiseTop
  | .forPrep => thenNext prepareLoop
  | .forIter => askState
  | .forNext d => askElement d.toNat
  | .generator => makeGenerator
  | .yield => yieldValue
  | .generatorClose => thenNext do
    let f ← frame
    match f.generator with
    | some g => modify (·.finishGenerator g)
    | none => pure ()
  | .importModule i => do importModule (← name i) true
  | .importFrom i => do importModule (← name i) false
  | .importName m i => thenNext do
    let moduleKey ← name m
    let key ← name i
    pushModuleGlobal (← loadedModule moduleKey) key
  | .importAll m => thenNext do
    let source ← loadedModule (← name m)
    modify fun s =>
      let globals := ((s.module? source).map (·.2)).getD .empty
      s.update s.currentModule fun
        | .module text own => .module text (own.merge globals)
        | o => o

/-- Fetches the next instruction of the innermost frame and moves past it. -/
def fetch : Act Op := fun s =>
  match s.frame? with
  | none => .fault .noFrame
  | some f =>
    match f.proto.chunk.code[f.ip]? with
    | none => .fault .codeEnd
    | some op => .done op (s.modifyFrame fun f => { f with ip := f.ip + 1 })

end ScriptEngine.Act
