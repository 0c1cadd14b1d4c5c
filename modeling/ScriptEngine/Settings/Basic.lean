import ScriptEngine.Number.Decimal

/-!
# Settings

What a host can choose about a machine: the collector's budget and the limits on nesting. A record
of settings is accepted only if its values make sense together.
-/

namespace ScriptEngine

/-- The settings of a machine. -/
structure Settings where
  /-- Bytes that may be charged before the first collection. -/
  firstGcThreshold : Nat
  /-- Factor from live bytes to the bound of the next collection. -/
  heapGrowRate : Number
  /-- Bytes that must never be exceeded. -/
  maxHeapBytes : Option Nat
  /-- Greatest number of active frames. -/
  maxFrames : Nat
  /-- Greatest nesting of script calls made by host-side code. -/
  maxReentrant : Nat
  /-- Slots reserved for the stack. -/
  initialStack : Nat
  /-- Whether uncaught exceptions are reported on the error stream. -/
  printUncaught : Bool
  /-- Whether every instruction is logged. -/
  traceExecution : Bool
  deriving DecidableEq, Inhabited

namespace Settings

/-- The settings of a host that chooses nothing. -/
def default : Settings :=
  { firstGcThreshold := 10 * 1024 * 1024
    heapGrowRate := .ofNat 2
    maxHeapBytes := none
    maxFrames := 1000
    maxReentrant := 200
    initialStack := 256
    printUncaught := true
    traceExecution := false }

/-- Why settings are rejected. -/
inductive Invalid where
  /-- The growth factor does not grow. -/
  | growRate (rate : Number)
  /-- No frame would be allowed. -/
  | maxFrames
  /-- No script call would be allowed. -/
  | maxReentrant
  /-- The ceiling is reached before the first collection. -/
  | maxHeapBytes (limit threshold : Nat)
  deriving DecidableEq

/-- The reason of a rejection. -/
def Invalid.reason : Invalid → String
  | .growRate rate => "heap_grow_rate must be greater than 1.0, got " ++ rate.text
  | .maxFrames => "max_frames must be at least 1"
  | .maxReentrant => "max_reentrant must be at least 1"
  | .maxHeapBytes limit threshold =>
    "max_heap_bytes (" ++ toString limit ++ ") is below first_gc_threshold (" ++
      toString threshold ++ ")"

/-- The wording of a rejection. -/
def Invalid.message (e : Invalid) : String := "invalid configuration: " ++ e.reason

/-- The first reason for which settings are rejected. A growth factor that is not a number fails. -/
def invalid? (s : Settings) : Option Invalid :=
  if !(Number.ofNat 1).less s.heapGrowRate then some (.growRate s.heapGrowRate)
  else if s.maxFrames = 0 then some .maxFrames
  else if s.maxReentrant = 0 then some .maxReentrant
  else
    match s.maxHeapBytes with
    | some limit =>
      if limit < s.firstGcThreshold then some (.maxHeapBytes limit s.firstGcThreshold) else none
    | none => none

end Settings

end ScriptEngine
