import ScriptEngine.Machine.Classes

/-!
# Exceptions

Raising pushes an instance with its message, its cause and the trace of the active frames. Unwinding
looks for the handler installed last in the innermost frame that has one, and leaves frames without
a handler. What is left of an uncaught exception is a report: class, message and trace.
-/

namespace ScriptEngine

/-- An exception nobody caught, as the host sees it. -/
structure RuntimeError where
  /-- Name of its class. -/
  className : String
  /-- Its message. -/
  message : String
  /-- Frames at the time it was raised, innermost first. -/
  trace : List TraceRecord
  deriving DecidableEq, Repr

/-- `class: message`. -/
def RuntimeError.text (e : RuntimeError) : String := e.className ++ ": " ++ e.message

/-- Counts equal neighbours. -/
def countRuns {α : Type} [BEq α] : List α → List (α × Nat)
  | [] => []
  | a :: rest =>
    match countRuns rest with
    | (b, n) :: more => if a == b then (b, n + 1) :: more else (a, 1) :: (b, n) :: more
    | [] => [(a, 1)]

/-- Why an ensure block runs: an exception is on its way. -/
def causeException : Number := .zero

/-- Why an ensure block runs: the function is returning. -/
def causeReturn : Number := .ofNat 1

namespace State

/-- The frames as trace records, innermost first. -/
def trace (s : State) : List TraceRecord :=
  s.frames.toList.reverse.map fun f =>
    { line := f.line?
      module := ((s.function? f.function).map fun o => s.moduleName o.module).getD ""
      function := f.proto.displayName }

/-- Marks a generator as completed and drops what it saved. -/
def finishGenerator (s : State) (h : Handle) : State :=
  s.update h fun
    | .generator g => .generator { g with state := .done, stack := #[], handlers := [] }
    | o => o

/-- Continues at a handler with a value and the reason for running it. -/
def restore (s : State) (h : Handler) (v : Value) (cause : Number) : State :=
  ((((s.closeUpvalues h.height).truncate h.height).push v).push (.number cause)).jumpTo h.address

/-- Drops the innermost frame, whose contents are given, but not its slots. -/
def leaveFrame (s : State) (f : Frame) : State :=
  let s := s.dropFrame
  let s :=
    match f.generator with
    | some g => s.finishGenerator g
    | none => s
  s.closeUpvalues f.base

/-- Leaves up to `count` frames until one has a handler. `base` is the base of the frame left last.
The flag says whether a handler was found. -/
def unwindFrames (exception : Value) : Nat → Option Nat → State → State × Bool
  | count + 1, _, s =>
    match s.frame? with
    | some f =>
      match f.handlers with
      | h :: rest =>
        ((s.modifyFrame fun f => { f with handlers := rest }).restore h exception causeException,
          true)
      | [] => unwindFrames exception count (some f.base) (s.leaveFrame f)
    | none => (s.push exception, false)
  | 0, base, s =>
    match base with
    | some height => ((s.truncate height).push exception, false)
    | none => (s.push exception, false)

/-- Unwinds the exception on top of the stack, leaving no more frames than those above `depth`. -/
def unwind (s : State) (depth : Nat) : State × Bool :=
  unwindFrames s.top (s.frames.size - depth) none s.drop

/-- The innermost ensure handler of a list of handlers, with those outside it. -/
def ensureHandler? : List Handler → Option (Handler × List Handler)
  | [] => none
  | h :: rest => if h.kind = .ensure then some (h, rest) else ensureHandler? rest

/-- Before a return: continues at the innermost ensure handler of the frame, if there is one. The
flag says whether there is. -/
def unwindReturn (s : State) (result : Value) : State × Bool :=
  match s.frame? with
  | none => (s, false)
  | some f =>
    match ensureHandler? f.handlers with
    | some (h, rest) =>
      ((s.modifyFrame fun f => { f with handlers := rest }).restore h result causeReturn, true)
    | none => (s.modifyFrame fun f => { f with handlers := [] }, false)

/-- Moves the top value down to a slot, dropping what was between. -/
def settle (s : State) (slot : Nat) : State :=
  let v := s.top
  (s.drop.truncate slot).push v

/-! ## Reports -/

/-- A field of an exception. -/
def exceptionField (s : State) (v : Value) (name : Special) : Option Value :=
  match s.instanceOf? v with
  | some (_, fields) => fields.get? (s.special name)
  | none => none

/-- The records of a stack trace. -/
def traceRecords (s : State) : Value → List TraceRecord
  | .object h =>
    match s.heap.get? h with
    | some (.stackTrace records) => records
    | _ => []
  | _ => []

/-- Class, message and trace of an exception. -/
def report (s : State) (exception : Value) : RuntimeError :=
  { className := s.kindOf exception
    message :=
      match (s.exceptionField exception .err).bind s.string? with
      | some str => Text.lossy str.data
      | none => ""
    trace := ((s.exceptionField exception .stacktrace).map s.traceRecords).getD [] }

/-- The lines of a traceback, outermost frame first. -/
def traceLines (trace : List TraceRecord) : String :=
  match countRuns trace.reverse with
  | [] => ""
  | runs =>
    runs.foldl (fun text (record, count) =>
      text ++ "    " ++ record.text ++ "\n" ++
        if count > 1 then
          "    [Previous line repeated " ++ toString (count - 1) ++ " more times]\n"
        else "")
      "Traceback (most recent call last):\n"

/-- The traceback of an exception and of at most `causes` exceptions that caused it; `none` if it is
never found out whether a cause is an exception. -/
def traceback (s : State) : Nat → Value → Option String
  | causes, exception => do
    let before ←
      match causes, s.exceptionField exception .cause with
      | causes + 1, some cause => do
        if ← s.isInstance cause (s.coreClass .exception) then
          pure ((← s.traceback causes cause) ++ "\n\nAbove Exception caused:\n\n")
        else pure ""
      | _, _ => pure ""
    let e := s.report exception
    let summary := if e.message.isEmpty then e.className else e.className ++ ": " ++ e.message
    return before ++ traceLines e.trace ++ summary

/-- How many causes a traceback shows at most. -/
def maxCauses : Nat := 16

end State

namespace Act

/-- Records the active frames in an exception. -/
def recordTrace (h : Handle) : Act Unit := do
  let records ← gets (·.trace)
  let trace ← alloc (.stackTrace records)
  modify fun s => s.setInstanceField h (s.special .stacktrace) (.object trace)

/-- Raises a new exception of a class. -/
def failWith {α : Type} (c : Handle) (message : String) : Act α := do
  let text ← newString (Text.octets message)
  push (.object text)
  let h ← alloc (.instanceOf c .empty)
  replaceTop 1 (.object h)
  modify fun s => s.setInstanceField h (s.special .err) (.object text)
  modify fun s => s.setInstanceField h (s.special .cause) .null
  recordTrace h
  raise

/-- Raises a new exception of a core class. -/
def fail {α : Type} (c : CoreClass) (message : String) : Act α := do
  failWith (← gets (·.coreClass c)) message

/-- Raises the value on top of the stack, which must be an exception. -/
def raiseTop {α : Type} : Act α := do
  let v ← peek 0
  if ← testClass v (← gets (·.coreClass .exception)) then
    match v with
    | .object h => recordTrace h
    | _ => pure ()
    raise
  else
    let kind ← gets (·.kindOf v)
    modify State.drop
    fail .typeException ("Can only raise Exception instances, got " ++ kind)

/-- Raises an interrupt if the host asked for one. -/
@[inline] def checkInterrupt : Act Unit := fun s =>
  if s.interrupt then
    fail .programInterrupt "Program interrupted" { s with interrupt := false }
  else .done () s

/-- The class has no such method. -/
def noMethod {α : Type} (c : Handle) (name : Key) : Act α := do
  let message ← gets fun s =>
    "Method `" ++ s.className c ++ "." ++ s.textOf name.handle ++ "()` doesn't exist"
  fail .methodException message

/-- The module has no such global. -/
def noName {α : Type} (module : Handle) (name : Key) : Act α := do
  let message ← gets fun s =>
    "Name `" ++ s.textOf name.handle ++ "` is not defined in module `" ++ s.moduleName module ++ "`"
  fail .nameException message

end Act

end ScriptEngine
