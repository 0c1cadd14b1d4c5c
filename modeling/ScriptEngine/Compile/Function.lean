import ScriptEngine.Compile.Emit

/-!
# Functions

A function is compiled in a state of its own, with the functions around it in reach for captures.
Its parameters are its first locals; a parameter that is unpacked is held in a hidden local. The
finished prototype becomes a constant of the enclosing function, which makes a closure of it.
-/

namespace ScriptEngine.Compile

open Bytecode Source

/-- The constant a literal stands for. -/
def literal? : Expr → Option Constant
  | .number _ n => some (.number n)
  | .string _ s => some (.string s)
  | .bool _ b => some (.bool b)
  | .null _ => some .null
  | _ => none

/-- The defaults of a parameter list, given those collected so far. Parameters with a default come
last, and a default is a literal. -/
def collectDefaults (pos : Position) (found : Array Constant) :
    List Parameter → Except Diagnostic (Array Constant)
  | [] => .ok found
  | p :: rest =>
    match p.default with
    | some e =>
      match literal? e with
      | some c => collectDefaults pos (found.push c) rest
      | none => .error ⟨.defaultNotLiteral, e.pos⟩
    | none =>
      if found.isEmpty then collectDefaults pos found rest
      else .error ⟨.parameterAfterDefault p.name, pos⟩

/-- Checks a parameter list and collects its defaults. -/
def parameterDefaults (params : List Parameter) (pos : Position) :
    Except Diagnostic (Array Constant) :=
  if params.length > maxArguments then .error ⟨.tooManyParameters, pos⟩
  else collectDefaults pos #[] params

/-- Makes each parameter a local; one that is unpacked has a hidden name. -/
def defineParameters (pos : Position) : Nat → List Parameter → Gen Unit
  | _, [] => return
  | i, p :: rest => do
    defineLocal (if p.pattern.isEmpty then p.name else ".arg" ++ toString i) pos
    defineParameters pos (i + 1) rest

/-- Unpacks parameters into fresh locals. The parameter at index `i` is in slot `i + 1`. -/
def unpackParameters (pos : Position) : Nat → List Parameter → Gen Unit
  | _, [] => return
  | i, p :: rest => do
    if !p.pattern.isEmpty then
      if p.pattern.length > maxArguments then fail .tooManyNames pos
      emit (.getLocal (UInt16.ofNat (i + 1))) pos.line
      emit (.unpack (UInt8.ofNat p.pattern.length)) pos.line
      p.pattern.forM (defineLocal · pos)
    unpackParameters pos (i + 1) rest

/-- Begins a nested function. -/
def beginFunction (slotZero : String) : Gen Unit :=
  modify fun ⟨current, enclosing⟩ => ⟨.start slotZero, current :: enclosing⟩

/-- Ends a nested function and gives what was built; the enclosing function is current again, with
the locals marked that the nested one captures. The instructions from one line must not have been too
many to count. -/
def endFunction : Gen FunctionState := do
  let ⟨done, enclosing⟩ ← get
  if done.overflowed then fail .overflow ⟨0, 0⟩
  match enclosing with
  | [] => return done
  | outer :: rest =>
    set (CompilerState.mk (outer.capture done.upvalues) rest)
    return done

/-- What a function declaration says apart from its body. -/
structure Signature where
  /-- Kind of function. -/
  kind : FunctionKind
  /-- Name of the prototype. -/
  name : String
  /-- Parameters. -/
  params : List Parameter
  /-- Name of the tuple of further arguments. -/
  vararg : Option String
  /-- Whether the body yields. -/
  isGenerator : Bool
  /-- Where it stands. -/
  pos : Position
  /-- Line of the last statement of the body. -/
  endLine : Nat

/-- The name of slot zero. -/
def FunctionKind.slotZero : FunctionKind → String
  | .method | .constructor => "this"
  | .script | .function => ""

/-- Compiles a function and makes a closure of it. A constructor returns its receiver, any other
function null, when its body falls through. -/
def emitFunction (ctx : Context) (sig : Signature) (body : Context → Gen Unit) : Gen Unit := do
  let defaults ← parameterDefaults sig.params sig.pos
  if sig.isGenerator && sig.kind == .constructor then fail .yieldInConstructor sig.pos
  let inner : Context :=
    { kind := sig.kind, isGenerator := sig.isGenerator, method := ctx.method, tries := [] }
  beginFunction sig.kind.slotZero
  beginScope
  defineParameters sig.pos 0 sig.params
  sig.vararg.forM (defineLocal · sig.pos)
  if sig.isGenerator then emit .generator sig.pos.line
  unpackParameters sig.pos 0 sig.params
  body inner
  emit (if sig.kind == .constructor then .getLocal 0 else .null) sig.endLine
  emitReturn inner sig.endLine
  let built ← endFunction
  let proto : Proto :=
    { name := sig.name
      arity := UInt8.ofNat sig.params.length
      defaults := defaults
      vararg := sig.vararg.isSome
      upvalueCount := UInt16.ofNat built.upvalues.size
      chunk := built.chunk }
  let index ← addConstant (.function proto) sig.pos
  emit (.closure index built.upvalues.toList) sig.pos.line

/-- Enters the signature of a host function into the constant pool. -/
def nativeConstant (d : NativeDecl) : Gen UInt16 := do
  match d.params.find? (!·.pattern.isEmpty) with
  | some p => fail (.nativePattern d.name p.name) d.pos
  | none =>
    let defaults ← parameterDefaults d.params d.pos
    addConstant
      (.native
        { name := d.name
          arity := UInt8.ofNat d.params.length
          defaults := defaults
          vararg := d.vararg.isSome })
      d.pos

end ScriptEngine.Compile
