/-!
# Host-side functions by name

Functions that scripts call but that are not written in the script language: those of the core
module, and those an embedding host registers. An object of the heap refers to such a function by
the identifier given here; what the functions do is defined where the machine is.
-/

namespace ScriptEngine

/-- Functions of the core module. -/
inductive CoreFunction where
  | objectEq | objectHash | objectString
  | numberString
  | stringLen | stringEq | stringHash | stringIter | stringNext
  | listAdd | listLen | listEq | listIter | listNext
  | tupleLen | tupleEq | tupleHash | tupleIter | tupleNext
  | tableLen | tableContains | tableDelete | tableIter | tableNext
  | generatorIsDone | generatorIter | generatorNext
  | exceptionConstruct | exceptionPrintStacktrace | exceptionGetStacktrace
  | print | type | str | assert
  deriving DecidableEq, Repr

/-- Functions an embedding host can register. Slot 0 is the receiver, arguments follow. -/
inductive HostFunction where
  /-- The sum of two numbers. -/
  | add
  /-- Two strings joined. -/
  | concat
  /-- A tuple of the two arguments. -/
  | pack2
  /-- The first argument. -/
  | first
  /-- The receiver. -/
  | receiver
  /-- The first argument called with the second. -/
  | call
  /-- The first argument called; the message of an exception instead of the exception. -/
  | swallow
  /-- A method of the first argument, by name. -/
  | invoke
  /-- Raises an exception of a named class. -/
  | raise
  /-- Raises the first argument. -/
  | reraise
  /-- A field of the first argument, by name. -/
  | getField
  /-- Sets a field of the first argument, by name. -/
  | setField
  /-- The list of the whole numbers below a bound. -/
  | range
  /-- The kind of the first argument. -/
  | kind
  /-- Overwrites the first argument and gives it back. -/
  | setSlot
  /-- A global of the main module, by name. -/
  | global
  /-- Requests an interrupt. -/
  | interrupt
  /-- Collects garbage. -/
  | collect
  /-- Pushes nothing. -/
  | nothing
  deriving DecidableEq, Repr

/-- Every host function with the name it is registered by. -/
def HostFunction.table : List (String × HostFunction) :=
  [("add", .add), ("concat", .concat), ("pack2", .pack2), ("first", .first), ("this", .receiver),
   ("call", .call), ("swallow", .swallow), ("invoke", .invoke), ("raise", .raise),
   ("reraise", .reraise), ("getf", .getField), ("setf", .setField), ("range", .range),
   ("kind", .kind), ("setslot", .setSlot), ("global", .global), ("interrupt", .interrupt),
   ("collect", .collect), ("nothing", .nothing)]

/-- The host function of a name. -/
def HostFunction.ofName? (name : String) : Option HostFunction := HostFunction.table.lookup name

/-- A function that is not written in the script language. -/
inductive NativeFunction where
  | core (f : CoreFunction)
  | host (f : HostFunction)
  deriving DecidableEq, Repr

end ScriptEngine
