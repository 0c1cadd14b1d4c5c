import ScriptEngine.Machine.Instructions

/-!
# Running

The machine in small steps. A step executes one instruction, enters one callee, or hands a result to
the host-side action that waits for it. Waiting actions form a stack: each waits for the script call
made by the one above it. An exception unwinds the frames of the innermost such call, and becomes
its outcome if no handler is found there.

`Machine.run` takes at most as many steps as it is told to, and says if they did not suffice.
-/

namespace ScriptEngine

/-- A script call that host-side code waits for. -/
structure Call where
  /-- Number of frames when the call was made. -/
  depth : Nat
  /-- Stack index of the callee, where the result will stand. -/
  slot : Nat
  /-- Whether the call has a frame, and so counts towards the nesting of calls. -/
  entered : Bool
  deriving DecidableEq, Inhabited, Repr

/-- An action that waits for the call above it, together with the call it runs in. -/
structure Waiting where
  /-- The call it runs in. -/
  call : Call
  /-- How it goes on. -/
  resume : Bool → State → Proc Control

/-- A machine that runs a script call for the host. -/
structure Machine where
  /-- Its state. -/
  state : State
  /-- What it does next. -/
  control : Control
  /-- The innermost call. -/
  call : Call
  /-- The actions that wait, innermost first. -/
  waiting : List Waiting

/-- The result of a step. -/
inductive Status where
  | running (m : Machine)
  /-- The host's call has ended; the flag says whether it returned or raised. -/
  | ended (returned : Bool) (s : State)
  | fault (f : Fault)

/-- What is known about an action or a call after a number of steps. -/
inductive Outcome (α : Type) where
  | done (result : α) (s : State)
  | raised (s : State)
  | fault (f : Fault)
  /-- More steps are needed. -/
  | unfinished

namespace State

/-- Begins a call that counts towards nesting. -/
def enterScript (s : State) : State := { s with reentrant := s.reentrant + 1 }

/-- Ends a call that counts towards nesting. -/
def leaveScript (s : State) : State := { s with reentrant := s.reentrant - 1 }

end State

namespace Machine

/-- A machine that is about to make a call; too deep a nesting is refused. -/
def start (s : State) (method : Option Value) (argc : Nat) (waiting : List Waiting) : Status :=
  if argc + 1 ≤ s.stack.size then
    let call : Call := ⟨s.frames.size, s.stack.size - 1 - argc, false⟩
    let control : Control :=
      if s.settings.maxReentrant ≤ s.reentrant then .refuse else .enter method argc
    .running ⟨s, control, call, waiting⟩
  else .fault .slot

/-- The action that a control stands for. -/
def action : Control → Act Control
  | .next => do Act.execute (← Act.fetch)
  | .enter none argc => Act.enterValue argc
  | .enter (some method) argc => Act.enterMethod method argc
  | .spread v iter next => Act.spreadElement v iter next
  | .refuse => Act.overflow
  | .leave returned => pure (.leave returned)

/-- The machine after an action that runs in a call. -/
def absorb (call : Call) (waiting : List Waiting) : Proc Control → Status
  | .done .next s =>
    if s.frames.size = call.depth then .running ⟨s, .leave true, call, waiting⟩
    else if call.entered then .running ⟨s, .next, call, waiting⟩
    else .running ⟨s.enterScript, .next, { call with entered := true }, waiting⟩
  | .done control s => .running ⟨s, control, call, waiting⟩
  | .raised s =>
    match s.unwind call.depth with
    | (s, true) => .running ⟨s, .next, call, waiting⟩
    | (s, false) => .running ⟨s.settle call.slot, .leave false, call, waiting⟩
  | .fault f => .fault f
  | .call s method argc resume => start s method argc (⟨call, resume⟩ :: waiting)

/-- One step. -/
def step : Machine → Status
  | ⟨s, .leave returned, call, waiting⟩ =>
    let s := if call.entered then s.leaveScript else s
    match waiting with
    | [] => .ended returned s
    | w :: rest => absorb w.call rest (w.resume returned s)
  | ⟨s, control, call, waiting⟩ => absorb call waiting (action control s)

/-- Runs a status for at most so many steps. -/
def runStatus : Nat → Status → Outcome Unit
  | _, .ended true s => .done () s
  | _, .ended false s => .raised s
  | _, .fault f => .fault f
  | 0, .running _ => .unfinished
  | steps + 1, .running m => runStatus steps m.step

end Machine

/-- Runs an action of the host. Each script call it makes may take as many steps as are given. -/
def Proc.finish {α : Type} (steps : Nat) : Proc α → Outcome α
  | .done a s => .done a s
  | .raised s => .raised s
  | .fault f => .fault f
  | .call s method argc resume =>
    match Machine.runStatus steps (Machine.start s method argc []) with
    | .done () s => (resume true s).finish steps
    | .raised s => (resume false s).finish steps
    | .fault f => .fault f
    | .unfinished => .unfinished

/-- Runs an action of the host on a state. -/
def Act.run {α : Type} (x : Act α) (steps : Nat) (s : State) : Outcome α := (x s).finish steps

end ScriptEngine
