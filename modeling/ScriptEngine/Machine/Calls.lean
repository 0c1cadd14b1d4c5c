import ScriptEngine.Machine.HostFunctions

/-!
# Calls

Entering a callee: a closure gets a frame of its own, a function of the host runs at once, a class
makes an instance and goes on with its constructor, a bound method goes on with its receiver in
place of the callee, and a generator gets back the frame it was suspended with. The callee stands on
the stack below its arguments, and its slot becomes slot 0 of the callee's frame.
-/

namespace ScriptEngine

/-- How a callee takes its arguments. -/
structure Signature where
  /-- Its name in messages. -/
  name : String
  /-- Number of declared parameters. -/
  arity : Nat
  /-- The defaults of the last parameters. -/
  defaults : Array Value
  /-- Whether further arguments are packed into a tuple. -/
  vararg : Bool

/-- The signature of a function. -/
def FunctionObject.signature (f : FunctionObject) : Signature :=
  ⟨f.proto.displayName, f.proto.arity.toNat, f.defaults, f.proto.vararg⟩

/-- The signature of a function of the host. -/
def NativeObject.signature (n : NativeObject) : Signature :=
  ⟨n.name, n.arity.toNat, n.defaults, n.vararg⟩

namespace Signature

/-- The fewest arguments that are taken. -/
def least (g : Signature) : Nat := g.arity - g.defaults.size

/-- Whether a number of arguments is taken. -/
def accepts (g : Signature) (argc : Nat) : Bool :=
  decide (g.least ≤ argc) && (g.vararg || decide (argc ≤ g.arity))

/-- The defaults of the parameters that a number of arguments leaves open. -/
def missing (g : Signature) (argc : Nat) : Array Value :=
  g.defaults.extract (argc - g.least) g.defaults.size

/-- The message about a number of arguments that is not taken. -/
def arityMessage (g : Signature) (argc : Nat) : String :=
  let expected :=
    if g.least = g.arity ∧ g.vararg = false then "exactly " ++ toString g.arity
    else if argc < g.least then "at least " ++ toString g.least
    else "at most " ++ toString g.arity
  "Function `" ++ g.name ++ "` takes " ++ expected ++ " arguments, " ++ toString argc ++ " supplied"

end Signature

namespace Act

/-- Brings the arguments on top of the stack to a signature: fills in defaults and packs further
arguments into a tuple. Gives the number of argument slots. -/
def adjustArguments (g : Signature) (argc : Nat) : Act Nat := do
  if g.arity < g.defaults.size then fault .signature
  else if g.accepts argc then
    modify fun s => { s with stack := s.stack ++ g.missing argc }
    if g.vararg then
      pushTuple (argc - g.arity)
      return g.arity + 1
    else return g.arity
  else fail .typeException (g.arityMessage argc)

/-- The stack is too deep. -/
def overflow {α : Type} : Act α := fail .stackOverflow "Stack overflow"

/-- Whether one more frame would be too many. -/
def atFrameLimit : Act Bool := gets fun s => decide (s.settings.maxFrames ≤ s.frames.size)

/-- Adds a frame. -/
def pushFrame (f : Frame) : Act Unit := modify fun s => { s with frames := s.frames.push f }

/-- The function behind a handle. -/
def functionOf (h : Handle) : Act FunctionObject := require (·.function? h) .kind

/-- Enters a closure. -/
def callClosure (closure function : Handle) (argc : Nat) : Act Unit := do
  if ← atFrameLimit then overflow
  else
    let f ← functionOf function
    let total ← adjustArguments f.signature argc
    let base ← start (total + 1)
    pushFrame
      { closure := closure
        function := function
        proto := f.proto
        base := base
        ip := 0
        handlers := []
        generator := none }

/-- Sets the base of host-side slots and gives the old one. -/
def swapApiBase (base : Nat) : Act Nat :=
  modifyGet fun s => ({ s with apiBase := base }, s.apiBase)

/-- Runs a function of the host in place of the call. The result, or the exception, replaces callee
and arguments. -/
def callNative (n : NativeObject) (argc : Nat) : Act Unit := do
  let total ← adjustArguments n.signature argc
  let base ← start (total + 1)
  let saved ← swapApiBase base
  let ok ← attempt (runNative n.function)
  let _ ← swapApiBase saved
  modify (·.settle base)
  if ok then pure () else raise

/-- Makes an instance and goes on with its constructor. -/
def callClass (h : Handle) (c : ClassObject) (argc : Nat) : Act Control := do
  if c.builtin then
    let name ← gets (·.className h)
    fail .typeException ("Cannot instantiate builtin class `" ++ name ++ "`")
  else
    let made ← alloc (.instanceOf h .empty)
    let callee ← start (argc + 1)
    setSlotAt callee (.object made)
    match ← gets fun s => s.method? h (s.special .construct) with
    | some constructor => return .invoke constructor argc
    | none =>
      if argc = 0 then return .next
      else
        let name ← gets (·.className h)
        fail .typeException
          ("Class `" ++ name ++ "` has no constructor and takes no arguments, " ++ toString argc ++
            " supplied")

/-- Handlers with heights moved up to a base. -/
def raiseHandlers (base : Nat) (handlers : List Handler) : List Handler :=
  handlers.map fun h => { h with height := h.height + base }

/-- Handlers with heights relative to a base. -/
def lowerHandlers (base : Nat) (handlers : List Handler) : List Handler :=
  handlers.map fun h => { h with height := h.height - base }

/-- Gives a generator its frame back. The argument, if there is one, becomes the value of the
`yield` it stopped at. -/
def resumeGenerator (h : Handle) (g : GeneratorObject) (argc : Nat) : Act Unit := do
  if g.state = .done then fail .generatorException "Generator has completed"
  else if g.state = .running then fail .generatorException "Generator is already running"
  else if argc > 1 then
    fail .typeException
      ("Generator takes at most 1 argument, " ++ toString argc ++ " supplied")
  else if ← atFrameLimit then overflow
  else
    let sent ← if argc = 1 then pop else pure .null
    let base ← start 1
    truncate base
    modify fun s =>
      { s with
        heap := s.heap.update h fun _ =>
          .generator { g with state := .running, stack := #[], handlers := [] } }
    let f ← functionOf g.function
    modify fun s => { s with stack := s.stack ++ g.stack }
    if g.state = .suspended then push sent else pure ()
    pushFrame
      { closure := g.closure
        function := g.function
        proto := f.proto
        base := base
        ip := g.ip
        handlers := raiseHandlers base g.handlers
        generator := some h }

/-- The value cannot be called. -/
def notCallable {α : Type} (v : Value) : Act α := do
  let kind ← gets (·.kindOf v)
  fail .typeException ("Object `" ++ kind ++ "` is not callable")

/-- Calls the value below the arguments. -/
def enterValue (argc : Nat) : Act Control := do
  let callee ← start (argc + 1)
  let v ← slotAt callee
  match v with
  | .object h =>
    match ← object h with
    | .closure f _ =>
      callClosure h f argc
      return .next
    | .native n =>
      callNative n argc
      return .next
    | .classObject c => callClass h c argc
    | .boundMethod receiver method =>
      setSlotAt callee receiver
      return .invoke (.object method) argc
    | .generator g =>
      resumeGenerator h g argc
      return .next
    | _ => notCallable v
  | _ => notCallable v

/-- Calls a method whose receiver stands below the arguments. A method that is no function of its
own takes the receiver's place and is called as a value. -/
def enterMethod (method : Value) (argc : Nat) : Act Control := do
  let instead : Act Control := do
    let callee ← start (argc + 1)
    setSlotAt callee method
    return .call argc
  match method with
  | .object h =>
    match ← object h with
    | .closure f _ =>
      callClosure h f argc
      return .next
    | .native n =>
      callNative n argc
      return .next
    | _ => instead
  | _ => instead

/-- Calls a method by name: a method of the receiver's class, or a field that holds a callable. -/
def invoke (name : Key) (argc : Nat) : Act Control := do
  let receiver ← peek argc
  let c ← classOf receiver
  match ← gets (·.method? c name) with
  | some method => return .invoke method argc
  | none =>
    match ← ownFieldOf receiver name with
    | some callee =>
      setSlotAt (← start (argc + 1)) callee
      return .call argc
    | none => noMethod c name

/-- The most arguments a spread call can have. -/
def maxSpread : Nat := 254

/-- `[callee, list] → [callee, x0, ..]`. Gives the number of arguments. -/
def spreadArguments : Act Nat := do
  let list ← pop
  let items ← gets fun s => (s.list? list).getD #[]
  if items.size > maxSpread then
    fail .typeException ("Too many arguments for function call: " ++ toString items.size)
  else
    modify fun s => { s with stack := s.stack ++ items }
    return items.size

end Act

end ScriptEngine
