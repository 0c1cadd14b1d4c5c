import ScriptEngine.Machine.Slots
import ScriptEngine.Number.Decimal
import ScriptEngine.Text.Hex
import ScriptEngine.Text.Quoted

/-!
# Values as text

The text that `print` and `str` give. Containers show their elements, with strings quoted, down to a
fixed depth; instances are shown by a method of their class.
-/

namespace ScriptEngine

/-- Objects nested more deeply than this are shown as dots. -/
def maxDisplayDepth : Nat := 64

namespace State

/-- The text of a value that nothing else describes. -/
def plainText (s : State) (v : Value) : String :=
  match v with
  | .object h => "<" ++ s.kindOf v ++ " object at 0x" ++ Text.hexText h.index ++ ">"
  | _ => "<" ++ s.kindOf v ++ " object>"

/-- The name of a function object. -/
def functionName (s : State) (h : Handle) : String :=
  match s.function? h with
  | some f => f.proto.displayName
  | none => ""

/-- The name of a method object. -/
def methodName (s : State) (h : Handle) : String :=
  match s.heap.get? h with
  | some (.native n) => n.name
  | some (.closure f _) => s.functionName f
  | some o => o.kindName
  | none => ""

/-- The text of an object that neither contains others nor is shown by a method. -/
def atomText (s : State) (o : Object) : String :=
  match o with
  | .string str => Text.lossy str.data
  | .classObject c => "<Class " ++ s.textOf c.name ++ ">"
  | .function f => "<Function " ++ f.proto.displayName ++ ">"
  | .closure f _ => "<Function " ++ s.functionName f ++ ">"
  | .native n => "<Native " ++ n.name ++ ">"
  | .boundMethod receiver method =>
    "<BoundMethod " ++ s.kindOf receiver ++ "." ++ s.methodName method ++ ">"
  | .module name _ => "<Module " ++ s.textOf name ++ ">"
  | .stackTrace records => String.intercalate "\n" (records.map TraceRecord.text)
  | .generator g => "<Generator " ++ s.functionName g.function ++ ">"
  | .upvalue _ | .list _ | .tuple _ | .table _ | .instanceOf _ _ => "<Upvalue>"

/-- What the host sees of a value without calling scripts. -/
def slotText (s : State) (v : Value) : String :=
  match v with
  | .number n => "number " ++ n.display
  | .bool b => if b then "bool true" else "bool false"
  | .null => "null"
  | .object _ =>
    match s.string? v with
    | some str => "string " ++ Text.lossy str.data
    | none => (s.slotKind v).name

end State

/-- Elements between brackets, separated by commas. -/
def bracketed (opening closing : String) (parts : List String) : String :=
  opening ++ String.intercalate ", " parts ++ closing

/-- The text of a tuple. One element alone is followed by a comma. -/
def tupleText : List String → String
  | [part] => "(" ++ part ++ ",)"
  | parts => bracketed "(" ")" parts

namespace Act

/-- The text a method of an instance gives. -/
def instanceText (v : Value) : Act String := do
  match ← findMethod v .string with
  | none => gets (·.plainText v)
  | some m =>
    push v
    callMethodSync m 0
    let result ← pop
    match ← gets (·.string? result) with
    | some str => return Text.lossy str.data
    | none => fail .typeException "__string__() must return a String"

/-- An element inside a container: a string in quotes, anything else as `shown` says. -/
def nested (shown : Value → Act String) (v : Value) : Act String := do
  match ← gets (·.string? v) with
  | some str => return Text.quoted (Text.lossy str.data)
  | none => shown v

/-- The text of a value, objects being shown down to `levels` levels. -/
def displayWithin : Nat → Value → Act String
  | _, .number n => pure n.display
  | _, .bool b => pure (if b then "true" else "false")
  | _, .null => pure "null"
  | 0, .object _ => pure "..."
  | levels + 1, .object h => do
    match ← object h with
    | .list items =>
      let parts ← items.toList.mapM (nested (displayWithin levels))
      return bracketed "[" "]" parts
    | .tuple items =>
      let parts ← items.toList.mapM (nested (displayWithin levels))
      return tupleText parts
    | .table t =>
      let parts ← t.toList.mapM fun e => do
        let key ← nested (displayWithin levels) e.key
        let value ← nested (displayWithin levels) e.value
        return key ++ ": " ++ value
      return bracketed "\x7b" "\x7d" parts
    | .instanceOf _ _ => instanceText (.object h)
    | o => gets (·.atomText o)

/-- The text of a value. -/
def display (v : Value) : Act String := displayWithin (maxDisplayDepth + 1) v

end Act

end ScriptEngine
