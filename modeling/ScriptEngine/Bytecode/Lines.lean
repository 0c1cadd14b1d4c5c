/-!
# Line tables

The source line of every instruction of a chunk, as runs of instructions from one line.
-/

namespace ScriptEngine.Bytecode

/-- Consecutive instructions from one line. -/
structure LineRun where
  /-- The line. -/
  line : UInt32
  /-- How many instructions. -/
  count : UInt32
  deriving DecidableEq, Inhabited, Repr

/-- The line of every instruction, run-length encoded. -/
structure LineTable where
  /-- The runs, first instruction first. -/
  runs : Array LineRun
  deriving DecidableEq, Inhabited, Repr

namespace LineTable

/-- No instruction. -/
def empty : LineTable := ⟨#[]⟩

/-- Whether the last run is of a line and has as many instructions as its counter can count, so that
to record that line once more overflows. -/
def isFull (t : LineTable) (line : Nat) : Bool :=
  t.runs.back?.any fun run => run.line == UInt32.ofNat line && run.count + 1 == 0

/-- Records the line of one more instruction. A counter that overflows starts over. -/
def push (t : LineTable) (line : Nat) : LineTable :=
  let line := UInt32.ofNat line
  match t.runs.back? with
  | some run =>
    if run.line = line then ⟨t.runs.pop.push ⟨line, run.count + 1⟩⟩
    else ⟨t.runs.push ⟨line, 1⟩⟩
  | none => ⟨t.runs.push ⟨line, 1⟩⟩

/-- The line at an offset into a list of runs. -/
def lineIn : List LineRun → Nat → Option Nat
  | [], _ => none
  | run :: rest, offset =>
    if offset < run.count.toNat then some run.line.toNat else lineIn rest (offset - run.count.toNat)

/-- The line of the instruction at `offset`. -/
def lineAt? (t : LineTable) (offset : Nat) : Option Nat := lineIn t.runs.toList offset

/-- How many instructions are covered. -/
def size (t : LineTable) : Nat := t.runs.toList.foldr (fun run n => run.count.toNat + n) 0

/-- Whether there is no run. -/
def isEmpty (t : LineTable) : Bool := t.runs.isEmpty

/-- The line of every instruction in order. -/
def toList (t : LineTable) : List Nat :=
  t.runs.toList.flatMap fun run => List.replicate run.count.toNat run.line.toNat

end LineTable

end ScriptEngine.Bytecode
