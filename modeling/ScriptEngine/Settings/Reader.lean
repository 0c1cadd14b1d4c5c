import ScriptEngine.Settings.Basic
import ScriptEngine.Settings.Document

/-!
# Reading settings

Settings as a JSON document: an object with any of the fields by name, or an array of the first
fields in order. Fields that are not given keep their value. Names that are no fields are ignored,
but a field must not be given twice.
-/

namespace ScriptEngine.Settings

/-- Why settings cannot be read. -/
inductive ReadError where
  /-- The text is no JSON, or a field has the wrong type. -/
  | malformed
  /-- The settings are rejected. -/
  | invalid (e : Invalid)
  deriving DecidableEq

/-- A whole number of 64 bits. -/
def word? : Document → Option Nat
  | .number l => l.word?
  | _ => none

/-- A number. -/
def number? : Document → Option Number
  | .number l => l.number?
  | _ => none

/-- A truth value. -/
def bool? : Document → Option Bool
  | .bool b => some b
  | _ => none

/-- A whole number of 64 bits, or null. -/
def optionalWord? : Document → Option (Option Nat)
  | .null => some none
  | d => (word? d).map some

/-- How a field is set. -/
abbrev Setter : Type := Settings → Document → Option Settings

/-- The fields in order, with their names. -/
def fields : List (String × Setter) :=
  [("first_gc_threshold", fun s d => (word? d).map fun n => { s with firstGcThreshold := n }),
   ("heap_grow_rate", fun s d => (number? d).map fun x => { s with heapGrowRate := x }),
   ("max_heap_bytes", fun s d => (optionalWord? d).map fun n => { s with maxHeapBytes := n }),
   ("max_frames", fun s d => (word? d).map fun n => { s with maxFrames := n }),
   ("max_reentrant", fun s d => (word? d).map fun n => { s with maxReentrant := n }),
   ("initial_stack", fun s d => (word? d).map fun n => { s with initialStack := n }),
   ("print_uncaught", fun s d => (bool? d).map fun b => { s with printUncaught := b }),
   ("trace_execution", fun s d => (bool? d).map fun b => { s with traceExecution := b })]

/-- Sets fields by name. `seen` are the names of fields set before. -/
def setFields (s : Settings) (seen : List String) : List (List Nat × Document) → Option Settings
  | [] => some s
  | (units, d) :: rest => do
    let name := String.ofList (← Document.characters? units)
    match fields.lookup name with
    | none => setFields s seen rest
    | some set =>
      if seen.contains name then none
      else setFields (← set s d) (name :: seen) rest

/-- Sets fields in order. -/
def setItems (s : Settings) : List (String × Setter) → List Document → Option Settings
  | _, [] => some s
  | [], _ => none
  | (_, set) :: more, d :: rest => do setItems (← set s d) more rest

/-- Settings changed by a document. -/
def withDocument (s : Settings) : Document → Option Settings
  | .object given => setFields s [] given
  | .array items => setItems s fields items
  | _ => none

/-- Settings changed by a JSON text, if they are accepted. -/
def read (s : Settings) (text : String) : Except ReadError Settings :=
  match (Document.ofText? text).bind s.withDocument with
  | none => .error .malformed
  | some s =>
    match s.invalid? with
    | some e => .error (.invalid e)
    | none => .ok s

end ScriptEngine.Settings
