import ScriptEngine.Heap.Basic

/-!
# The core module

The classes and functions every script can name, and the method names the machine itself looks up.
`Core.install` puts them on an empty heap, in the order of the schedule given here, and says under
which handles they are found. A class starts with a copy of its superclass's methods, so that
looking up a method never walks up the hierarchy.
-/

namespace ScriptEngine

/-- Names that the machine looks up by itself. -/
inductive Special where
  | construct | eq | hash | string | iter | next | get | set
  | add | radd | sub | rsub | mul | rmul | div | rdiv | mod | rmod | pow | rpow
  | lt | le | gt | ge | neg
  | band | rband | bor | rbor | xor | rxor | lshift | rlshift | rshift | rrshift | inv
  | len | err | cause | stacktrace
  deriving DecidableEq, Repr

namespace Special

/-- Every name the machine looks up, with its spelling. -/
def table : List (Special × String) :=
  [(.construct, "construct"), (.eq, "__eq__"), (.hash, "__hash__"), (.string, "__string__"),
   (.iter, "__iter__"), (.next, "__next__"), (.get, "__get__"), (.set, "__set__"),
   (.add, "__add__"), (.radd, "__radd__"), (.sub, "__sub__"), (.rsub, "__rsub__"),
   (.mul, "__mul__"), (.rmul, "__rmul__"), (.div, "__div__"), (.rdiv, "__rdiv__"),
   (.mod, "__mod__"), (.rmod, "__rmod__"), (.pow, "__pow__"), (.rpow, "__rpow__"),
   (.lt, "__lt__"), (.le, "__le__"), (.gt, "__gt__"), (.ge, "__ge__"), (.neg, "__neg__"),
   (.band, "__band__"), (.rband, "__rband__"), (.bor, "__bor__"), (.rbor, "__rbor__"),
   (.xor, "__xor__"), (.rxor, "__rxor__"), (.lshift, "__lshft__"), (.rlshift, "__rlshft__"),
   (.rshift, "__rshft__"), (.rrshift, "__rrshft__"), (.inv, "__inv__"), (.len, "__len__"),
   (.err, "_err"), (.cause, "_cause"), (.stacktrace, "_stacktrace")]

/-- The position of a name in the table. -/
def index (s : Special) : Nat := s.ctorIdx

end Special

/-- The classes of the core module. -/
inductive CoreClass where
  | object | classes | number | boolean | null | string | list | tuple | table | function | module
  | stackTrace | generator | exception
  | typeException | nameException | fieldException | methodException | indexException
  | stackOverflow | importException | invalidArgument | assertException | programInterrupt
  | generatorException
  deriving DecidableEq, Repr

/-- The position of a class in the order of installation. -/
def CoreClass.index (c : CoreClass) : Nat := c.ctorIdx

/-- Values a core function may have as defaults. -/
inductive CoreDefault where
  | emptyText | assertionText | null
  deriving DecidableEq, Repr

/-- The signature of a core function or method. -/
structure CoreSignature where
  /-- Its name. -/
  name : String
  /-- Number of declared parameters. -/
  arity : UInt8
  /-- What it does. -/
  function : CoreFunction
  /-- Defaults of the last parameters. -/
  defaults : List CoreDefault := []
  /-- Whether further arguments are packed into a tuple. -/
  vararg : Bool := false

/-- A class of the schedule. -/
structure CoreClassDecl where
  /-- Its name. -/
  name : String
  /-- The class it extends. -/
  superclass : Option CoreClass
  /-- Whether scripts can neither instantiate nor extend it. -/
  builtin : Bool
  /-- Its own methods. -/
  methods : List CoreSignature

namespace CoreClassDecl

/-- A class of built-in values. -/
def ofValues (name : String) (methods : List CoreSignature) : CoreClassDecl :=
  ⟨name, some .object, true, methods⟩

/-- A class of exceptions without methods of its own. -/
def ofException (name : String) : CoreClassDecl := ⟨name, some .exception, false, []⟩

/-- Methods shared by everything that can be iterated by position. -/
def sequenceMethods (len iter next : CoreFunction) (more : List CoreSignature) :
    List CoreSignature :=
  [⟨"len", 0, len, [], false⟩, ⟨"__len__", 0, len, [], false⟩] ++ more ++
    [⟨"__iter__", 1, iter, [], false⟩, ⟨"__next__", 1, next, [], false⟩]

/-- The classes in the order of installation. -/
def schedule : List CoreClassDecl :=
  [⟨"Object", none, false,
     [⟨"__eq__", 1, .objectEq, [], false⟩, ⟨"__hash__", 0, .objectHash, [], false⟩,
      ⟨"__string__", 0, .objectString, [], false⟩]⟩,
   ofValues "Class" [],
   ofValues "Number" [⟨"__string__", 0, .numberString, [], false⟩],
   ofValues "Boolean" [],
   ofValues "Null" [],
   ofValues "String"
     (sequenceMethods .stringLen .stringIter .stringNext
       [⟨"__eq__", 1, .stringEq, [], false⟩, ⟨"__hash__", 0, .stringHash, [], false⟩]),
   ofValues "List"
     (⟨"add", 1, .listAdd, [], false⟩ ::
       sequenceMethods .listLen .listIter .listNext [⟨"__eq__", 1, .listEq, [], false⟩]),
   ofValues "Tuple"
     (sequenceMethods .tupleLen .tupleIter .tupleNext
       [⟨"__eq__", 1, .tupleEq, [], false⟩, ⟨"__hash__", 0, .tupleHash, [], false⟩]),
   ofValues "Table"
     (sequenceMethods .tableLen .tableIter .tableNext
       [⟨"contains", 1, .tableContains, [], false⟩, ⟨"delete", 1, .tableDelete, [], false⟩]),
   ofValues "Function" [],
   ofValues "Module" [],
   ofValues "StackTrace" [],
   ofValues "Generator"
     [⟨"isDone", 0, .generatorIsDone, [], false⟩, ⟨"__iter__", 1, .generatorIter, [], false⟩,
      ⟨"__next__", 1, .generatorNext, [], false⟩],
   ⟨"Exception", some .object, false,
     [⟨"construct", 2, .exceptionConstruct, [.emptyText, .null], false⟩,
      ⟨"printStacktrace", 0, .exceptionPrintStacktrace, [], false⟩,
      ⟨"getStacktrace", 0, .exceptionGetStacktrace, [], false⟩]⟩,
   ofException "TypeException",
   ofException "NameException",
   ofException "FieldException",
   ofException "MethodException",
   ofException "IndexOutOfBoundException",
   ofException "StackOverflowException",
   ofException "ImportException",
   ofException "InvalidArgException",
   ofException "AssertException",
   ofException "ProgramInterrupt",
   ofException "GeneratorException"]

end CoreClassDecl

/-- The functions of the core module in the order of installation. -/
def coreFunctions : List CoreSignature :=
  [⟨"print", 0, .print, [], true⟩, ⟨"type", 1, .type, [], false⟩, ⟨"str", 1, .str, [], false⟩,
   ⟨"assert", 2, .assert, [.assertionText], false⟩]

/-- Where the core module is found. -/
structure Core where
  /-- The module object. -/
  module : Handle
  /-- The classes, in the order of `CoreClass`. -/
  classes : Array Handle
  /-- The keys of the names the machine looks up, in the order of `Special`. -/
  specials : Array Key
  deriving Inhabited

namespace Core

/-- The name of the core module. -/
def moduleName : String := "__core__"

/-- The object of a core class. -/
def classHandle (core : Core) (c : CoreClass) : Handle := core.classes.getD c.index default

/-- The key of a name the machine looks up. -/
def key (core : Core) (s : Special) : Key := core.specials.getD s.index default

/-- What is at hand while the core module is being installed. -/
structure Installation where
  /-- The heap so far. -/
  heap : Heap
  /-- The module object. -/
  module : Handle
  /-- The globals so far. -/
  globals : NameTable
  /-- The classes so far. -/
  classes : Array Handle
  /-- The empty string. -/
  emptyText : Handle
  /-- The default message of `assert`. -/
  assertionText : Handle

namespace Installation

/-- The value of a default. -/
def default (i : Installation) : CoreDefault → Value
  | .emptyText => .object i.emptyText
  | .assertionText => .object i.assertionText
  | .null => .null

/-- Interns the name of a core function and makes its object. -/
def addNative (i : Installation) (s : CoreSignature) : Installation × Key × Handle :=
  let (heap, key) := i.heap.internKey s.name
  let (heap, h) :=
    heap.insert (.native
      { name := s.name
        arity := s.arity
        defaults := (s.defaults.map i.default).toArray
        vararg := s.vararg
        module := i.module
        function := .core s.function })
  ({ i with heap := heap }, key, h)

/-- Adds a method to a class. -/
def addMethod (owner : Handle) (i : Installation) (s : CoreSignature) : Installation :=
  let (i, key, h) := i.addNative s
  let heap := i.heap.update owner fun
    | .classObject c => .classObject { c with methods := c.methods.insert key (.object h) }
    | o => o
  { i with heap := heap.resize owner }

/-- The methods of a class. -/
def methodsOf (heap : Heap) (h : Handle) : NameTable :=
  match heap.get? h with
  | some (.classObject c) => c.methods
  | _ => .empty

/-- Adds a class of the schedule, then its methods. -/
def addClass (i : Installation) (d : CoreClassDecl) : Installation :=
  let (heap, key) := i.heap.internKey d.name
  let superclass := d.superclass.bind fun c => i.classes[c.index]?
  let methods := (superclass.map (methodsOf heap)).getD .empty
  let (heap, h) := heap.insert (.classObject ⟨key.handle, superclass, methods, d.builtin⟩)
  let i :=
    { i with
      heap := heap
      globals := i.globals.insert key (.object h)
      classes := i.classes.push h }
  d.methods.foldl (addMethod h) i

/-- Adds a global function. -/
def addFunction (i : Installation) (s : CoreSignature) : Installation :=
  let (i, key, h) := i.addNative s
  { i with globals := i.globals.insert key (.object h) }

end Installation

/-- Interns a list of names. -/
def internKeys (heap : Heap) (names : List String) : Heap × Array Key :=
  names.foldl (fun (heap, keys) name =>
    let (heap, key) := heap.internKey name
    (heap, keys.push key)) (heap, #[])

/-- Installs the core module on a heap. -/
def install (heap : Heap) : Heap × Core :=
  let (heap, specials) := internKeys heap (Special.table.map (·.2))
  let (heap, name) := heap.intern (Text.octets moduleName)
  let (heap, module) := heap.insert (.module name .empty)
  let (heap, emptyText) := heap.intern (Text.octets "")
  let (heap, assertionText) := heap.intern (Text.octets "Assertion failed")
  let start : Installation := ⟨heap, module, .empty, #[], emptyText, assertionText⟩
  let done :=
    coreFunctions.foldl Installation.addFunction
      (CoreClassDecl.schedule.foldl Installation.addClass start)
  let heap := done.heap.update module fun
    | .module name _ => .module name done.globals
    | o => o
  (heap.resize module, ⟨module, done.classes, specials⟩)

end Core

end ScriptEngine
